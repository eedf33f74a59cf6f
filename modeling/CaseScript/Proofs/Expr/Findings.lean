import CaseScript.Proofs.Expr.FreeNames
import CaseScript.Proofs.Pattern.Occurrences
import CaseScript.Script.Emission

/-!
# What there is to report on a tree

The faults of naming in a tree and its clauses that are never reached, all of them, in the order in
which the tree is walked, and among them the literals that are written on the way. What a match
holds after the first clause that every value matches is not looked at. There is no fault just if
the tree is well named, which says nothing of any order.
-/

namespace CaseScript

/-- What a pattern mentions: the literals that it looks for and the names that it binds. -/
inductive Mention where
  | literal (value : Literal)
  | name (bound : Text) (place : Trail)

namespace Mention

def literal? : Mention → Option Literal
  | literal value => some value
  | name .. => none

def site? : Mention → Option (Text × Trail)
  | literal _ => none
  | name bound place => some (bound, place)

end Mention

namespace Pattern

mutual

def literals : Pattern → List Literal
  | literal value => [value]
  | var _ | wildcard => []
  | list items | listTail items _ => itemLiterals items

def itemLiterals : List Pattern → List Literal
  | [] => []
  | p :: rest => p.literals ++ itemLiterals rest

end

mutual

/-- All that a pattern at `trail` mentions, in the order of the walk. -/
def mentions (trail : Trail) : Pattern → List Mention
  | literal value => [.literal value]
  | var name => [.name name trail]
  | wildcard => []
  | list items => itemMentions (trail.field "items") 0 items
  | listTail items tail =>
    itemMentions (trail.field "items") 0 items ++ [.name tail (trail.field "tail")]

def itemMentions (trail : Trail) (index : Nat) : List Pattern → List Mention
  | [] => []
  | p :: rest => p.mentions (trail.item index) ++ itemMentions trail (index + 1) rest

end

end Pattern

inductive Finding where
  | fault (cause : NamingFault)
  | warning (diagnostic : Diagnostic)
  | literal (value : Literal)

namespace Finding

def fault? : Finding → Option NamingFault
  | fault cause => some cause
  | _ => none

def warning? : Finding → Option Diagnostic
  | warning diagnostic => some diagnostic
  | _ => none

/-- Is this nothing that a script fails at? -/
def Passes : Finding → Prop
  | fault _ => False
  | warning _ => True
  | literal value => value.fits = true

/-- Can this be written down, if it is a literal? -/
def Fits : Finding → Prop
  | literal value => value.fits = true
  | _ => True

/-! ## Single nodes -/

def ofName (trail : Trail) (name : Text) : List Finding :=
  if Name.isValid name then [] else [fault (.invalidName name trail)]

def ofOperator (trail : Trail) (op : Text) : List Finding :=
  if op.isOperator then [] else [fault (.invalidOperator op trail)]

/-- The faults of the parameters behind those in `before`. One that repeats an earlier parameter is
not looked at in itself. -/
def ofParams (trail : Trail) (before : List Text) : List Text → List Finding
  | [] => []
  | param :: rest =>
    let place := trail.entry "params" before.length
    (match before.idxOf? param with
      | some first => [fault (.repeatedParameter param (trail.entry "params" first) place)]
      | none => ofName place param) ++ ofParams trail (before ++ [param]) rest

/-- The fault of a name that a pattern binds behind those in `before`. It may be bound again where
bindings may shadow each other. -/
def ofBinding (shadowing : Bool) (before : List (Text × Trail)) (name : Text) (place : Trail) :
    List Finding :=
  if Name.isValid name then
    if shadowing then []
    else (before.lookup name).toList.map fun first => fault (.boundTwice name first place)
  else [fault (.invalidName name place)]

/-- The findings in a pattern that mentions all this, behind the names in `before`. -/
def ofMentions (shadowing : Bool) (before : List (Text × Trail)) : List Mention → List Finding
  | [] => []
  | .literal value :: rest => literal value :: ofMentions shadowing before rest
  | .name name place :: rest =>
    ofBinding shadowing before name place ++ ofMentions shadowing (before ++ [(name, place)]) rest

/-- The warnings about the clauses after the one at `index`, of which there are so many. -/
def ofDropped (trail : Trail) (index dropped : Nat) : List Finding :=
  (List.range' (index + 1) dropped).map fun later =>
    warning (Script.Decision.unreachable trail index later)

end Finding

/-- Are the names of a pattern valid and, where bindings may not shadow each other, all
different? -/
def Pattern.NamesFit (shadowing : Bool) (p : Pattern) : Prop :=
  (∀ name ∈ p.names, Name.isValid name = true) ∧ (shadowing = false → p.names.Nodup)

/-- Can the literals of a pattern be written down? -/
def Pattern.LiteralsFit (p : Pattern) : Prop := ∀ value ∈ p.literals, value.fits = true

/-! ## Whole trees -/

open Finding Script

namespace Expr

mutual

/-- All findings in an expression at `trail`. -/
def findings (shadowing : Bool) (trail : Trail) : Expr → List Finding
  | literal value => [.literal value]
  | var name => ofName trail name
  | list items => itemFindings shadowing (trail.field "items") 0 items
  | binop op left right =>
    findings shadowing (trail.field "left") left ++ (ofOperator (trail.field "op") op ++
      findings shadowing (trail.field "right") right)
  | letIn name value body =>
    ofName (trail.field "name") name ++ (findings shadowing (trail.field "value") value ++
      findings shadowing (trail.field "body") body)
  | apply function args =>
    findings shadowing (trail.field "function") function ++
      itemFindings shadowing (trail.field "args") 0 args
  | lambda params body => ofParams trail [] params ++ findings shadowing (trail.field "body") body
  | cases subject clauses =>
    findings shadowing (trail.field "subject") subject ++ clauseFindings shadowing trail 0 clauses

def itemFindings (shadowing : Bool) (trail : Trail) (index : Nat) : List Expr → List Finding
  | [] => []
  | item :: rest =>
    findings shadowing (trail.item index) item ++ itemFindings shadowing trail (index + 1) rest

def clauseFindings (shadowing : Bool) (trail : Trail) (index : Nat) : List Clause → List Finding
  | [] => []
  | ⟨pattern, body⟩ :: rest =>
    let place := Decision.clause trail index
    ofMentions shadowing [] (pattern.mentions (place.field "pattern")) ++
      (findings shadowing (place.field "body") body ++
        if pattern.catchesAll then ofDropped trail index rest.length
        else clauseFindings shadowing trail (index + 1) rest)

end

/-- The faults of naming in an expression at `trail`, from the first to the last. -/
def faults (shadowing : Bool) (trail : Trail) (e : Expr) : List NamingFault :=
  (e.findings shadowing trail).filterMap fault?

mutual

/-- The warnings about an expression at `trail`: for each match those about its subject, then those
about the bodies of its clauses, and then one for each clause that is dropped. -/
def warnings (trail : Trail) : Expr → List Diagnostic
  | literal _ | var _ => []
  | list items => itemWarnings (trail.field "items") 0 items
  | binop _ left right => warnings (trail.field "left") left ++ warnings (trail.field "right") right
  | letIn _ value body =>
    warnings (trail.field "value") value ++ warnings (trail.field "body") body
  | apply function args =>
    warnings (trail.field "function") function ++ itemWarnings (trail.field "args") 0 args
  | lambda _ body => warnings (trail.field "body") body
  | cases subject clauses =>
    warnings (trail.field "subject") subject ++ clauseWarnings trail 0 clauses

def itemWarnings (trail : Trail) (index : Nat) : List Expr → List Diagnostic
  | [] => []
  | item :: rest => warnings (trail.item index) item ++ itemWarnings trail (index + 1) rest

def clauseWarnings (trail : Trail) (index : Nat) : List Clause → List Diagnostic
  | [] => []
  | ⟨pattern, body⟩ :: rest =>
    warnings ((Decision.clause trail index).field "body") body ++
      if pattern.catchesAll then
        (List.range' (index + 1) rest.length).map (Decision.unreachable trail index)
      else clauseWarnings trail (index + 1) rest

end

/-- Can the names be written down that a node itself declares or uses? For a match these are the
names of the patterns of the clauses that are reached. -/
def NamesFit (shadowing : Bool) : Expr → Prop
  | literal _ | list _ | apply _ _ => True
  | var name | letIn name _ _ => Name.isValid name = true
  | binop op _ _ => op.isOperator = true
  | lambda params _ => (∀ param ∈ params, Name.isValid param = true) ∧ params.Nodup
  | cases _ clauses => ∀ clause ∈ reached clauses, clause.pattern.NamesFit shadowing

/-- Do the names fit in all parts of an expression, apart from clauses that are never reached? -/
def WellNamed (shadowing : Bool) (e : Expr) : Prop :=
  ∀ s ∈ e.subexprs, s.NamesFit shadowing

/-- Can the literals be written down that a node itself holds? For a match these are those in the
patterns of the clauses that are reached. -/
def LiteralsFit : Expr → Prop
  | literal value => value.fits = true
  | cases _ clauses => ∀ clause ∈ reached clauses, clause.pattern.LiteralsFit
  | _ => True

/-- Can all literals of an expression be written down, apart from those in clauses that are never
reached? -/
def Writable (e : Expr) : Prop := ∀ s ∈ e.subexprs, s.LiteralsFit

end Expr

/-! ## Warnings among the findings -/

namespace Finding

theorem warnings_ofName (trail : Trail) (name : Text) :
    (ofName trail name).filterMap warning? = [] := by
  unfold ofName
  split <;> rfl

theorem warnings_ofOperator (trail : Trail) (op : Text) :
    (ofOperator trail op).filterMap warning? = [] := by
  unfold ofOperator
  split <;> rfl

theorem warnings_ofParams (trail : Trail) (before params : List Text) :
    (ofParams trail before params).filterMap warning? = [] := by
  induction params generalizing before with
  | nil => rfl
  | cons param rest ih =>
    rw [ofParams, List.filterMap_append, ih, List.append_nil]
    split
    · rfl
    · exact warnings_ofName _ param

theorem warnings_ofBinding (shadowing : Bool) (before : List (Text × Trail)) (name : Text)
    (place : Trail) : (ofBinding shadowing before name place).filterMap warning? = [] := by
  unfold ofBinding
  by_cases hvalid : Name.isValid name = true
  · rw [if_pos hvalid]
    cases shadowing with
    | true => rfl
    | false => cases before.lookup name <;> rfl
  · rw [if_neg hvalid]
    rfl

theorem warnings_ofMentions (shadowing : Bool) (before : List (Text × Trail))
    (mentions : List Mention) : (ofMentions shadowing before mentions).filterMap warning? = [] := by
  induction mentions generalizing before with
  | nil => rfl
  | cons mention rest ih =>
    cases mention with
    | literal value => exact ih before
    | name name place =>
      rw [ofMentions, List.filterMap_append, ih, List.append_nil, warnings_ofBinding]

theorem warnings_ofDropped (trail : Trail) (index dropped : Nat) :
    (ofDropped trail index dropped).filterMap warning? =
      (List.range' (index + 1) dropped).map (Decision.unreachable trail index) := by
  unfold ofDropped
  rw [List.filterMap_map, ← List.filterMap_eq_map]
  rfl

end Finding

namespace Expr

mutual

theorem warnings_findings (shadowing : Bool) (trail : Trail) (e : Expr) :
    (e.findings shadowing trail).filterMap warning? = e.warnings trail := by
  cases e with
  | literal value => rfl
  | var name => exact warnings_ofName trail name
  | list items => exact warnings_itemFindings shadowing _ 0 items
  | binop op left right =>
    rw [findings, List.filterMap_append, List.filterMap_append, warnings_findings,
      warnings_ofOperator, warnings_findings, List.nil_append, warnings]
  | letIn name value body =>
    rw [findings, List.filterMap_append, List.filterMap_append, warnings_ofName, warnings_findings,
      warnings_findings, List.nil_append, warnings]
  | apply function args =>
    rw [findings, List.filterMap_append, warnings_findings, warnings_itemFindings, warnings]
  | lambda params body =>
    rw [findings, List.filterMap_append, warnings_ofParams, warnings_findings, List.nil_append,
      warnings]
  | cases subject clauses =>
    rw [findings, List.filterMap_append, warnings_findings, warnings_clauseFindings, warnings]

theorem warnings_itemFindings (shadowing : Bool) (trail : Trail) (index : Nat)
    (items : List Expr) :
    (itemFindings shadowing trail index items).filterMap warning? =
      itemWarnings trail index items := by
  cases items with
  | nil => rfl
  | cons item rest =>
    rw [itemFindings, List.filterMap_append, warnings_findings, warnings_itemFindings, itemWarnings]

theorem warnings_clauseFindings (shadowing : Bool) (trail : Trail) (index : Nat)
    (clauses : List Clause) :
    (clauseFindings shadowing trail index clauses).filterMap warning? =
      clauseWarnings trail index clauses := by
  cases clauses with
  | nil => rfl
  | cons clause rest =>
    obtain ⟨pattern, body⟩ := clause
    rw [clauseFindings, List.filterMap_append, List.filterMap_append, warnings_ofMentions,
      warnings_findings, List.nil_append, clauseWarnings]
    split
    · rw [warnings_ofDropped]
    · rw [warnings_clauseFindings]

end

end Expr

/-! ## Trees without a fault -/

namespace Pattern

mutual

theorem sites_mentions (trail : Trail) (p : Pattern) :
    (p.mentions trail).filterMap Mention.site? = p.occurrences trail := by
  cases p with
  | literal value => rfl
  | var name => rfl
  | wildcard => rfl
  | list items => exact sites_itemMentions (trail.field "items") 0 items
  | listTail items tail =>
    rw [mentions, List.filterMap_append, sites_itemMentions, occurrences]
    rfl

theorem sites_itemMentions (trail : Trail) (index : Nat) (items : List Pattern) :
    (itemMentions trail index items).filterMap Mention.site? =
      itemOccurrences trail index items := by
  cases items with
  | nil => rfl
  | cons p rest =>
    rw [itemMentions, List.filterMap_append, sites_mentions, sites_itemMentions, itemOccurrences]

end

mutual

theorem names_occurrences (trail : Trail) (p : Pattern) :
    (p.occurrences trail).map Prod.fst = p.names := by
  cases p with
  | literal value => rfl
  | var name => rfl
  | wildcard => rfl
  | list items => exact names_itemOccurrences (trail.field "items") 0 items
  | listTail items tail =>
    rw [occurrences, List.map_append, names_itemOccurrences, names]
    rfl

theorem names_itemOccurrences (trail : Trail) (index : Nat) (items : List Pattern) :
    (itemOccurrences trail index items).map Prod.fst = itemNames items := by
  cases items with
  | nil => rfl
  | cons p rest =>
    rw [itemOccurrences, List.map_append, names_occurrences, names_itemOccurrences, itemNames]

end

mutual

theorem literals_mentions (trail : Trail) (p : Pattern) :
    (p.mentions trail).filterMap Mention.literal? = p.literals := by
  cases p with
  | literal value => rfl
  | var name => rfl
  | wildcard => rfl
  | list items => exact literals_itemMentions (trail.field "items") 0 items
  | listTail items tail =>
    rw [mentions, List.filterMap_append, literals_itemMentions, literals]
    exact List.append_nil _

theorem literals_itemMentions (trail : Trail) (index : Nat) (items : List Pattern) :
    (itemMentions trail index items).filterMap Mention.literal? = itemLiterals items := by
  cases items with
  | nil => rfl
  | cons p rest =>
    rw [itemMentions, List.filterMap_append, literals_mentions, literals_itemMentions, itemLiterals]

end

end Pattern

namespace Finding

theorem passes_ofName_iff {trail : Trail} {name : Text} :
    (∀ finding ∈ ofName trail name, finding.Passes) ↔ Name.isValid name = true := by
  unfold ofName
  split <;> simp_all [Passes]

theorem passes_ofOperator_iff {trail : Trail} {op : Text} :
    (∀ finding ∈ ofOperator trail op, finding.Passes) ↔ op.isOperator = true := by
  unfold ofOperator
  split <;> simp_all [Passes]

theorem passes_ofDropped (trail : Trail) (index dropped : Nat) :
    ∀ finding ∈ ofDropped trail index dropped, finding.Passes := by
  unfold ofDropped
  rw [List.forall_mem_map]
  intro later _
  trivial

theorem faults_ofDropped (trail : Trail) (index dropped : Nat) :
    (ofDropped trail index dropped).filterMap fault? = [] := by
  unfold ofDropped
  rw [List.filterMap_eq_nil_iff, List.forall_mem_map]
  intro later _
  rfl

theorem passes_ofParams_iff {trail : Trail} {before params : List Text} :
    (∀ finding ∈ ofParams trail before params, finding.Passes) ↔
      (∀ param ∈ params, Name.isValid param = true ∧ param ∉ before) ∧ params.Nodup := by
  induction params generalizing before with
  | nil => simp [ofParams]
  | cons param rest ih =>
    rw [ofParams, List.forall_mem_append, ih, List.forall_mem_cons, List.nodup_cons]
    cases hi : before.idxOf? param with
    | some first =>
      have hmem : param ∈ before := by
        rw [← List.isSome_idxOf?, hi]
        rfl
      simp [Passes, hmem]
    | none =>
      have hmem : param ∉ before := List.idxOf?_eq_none_iff.mp hi
      rw [passes_ofName_iff]
      constructor
      · rintro ⟨hvalid, hrest, hdistinct⟩
        refine ⟨⟨⟨hvalid, hmem⟩, fun other hother => ?_⟩, fun hparam => ?_, hdistinct⟩
        · exact ⟨(hrest other hother).1, fun hb => (hrest other hother).2 (by simp [hb])⟩
        · exact (hrest param hparam).2 (by simp)
      · rintro ⟨⟨⟨hvalid, -⟩, hrest⟩, hnew, hdistinct⟩
        refine ⟨hvalid, fun other hother => ⟨(hrest other hother).1, ?_⟩, hdistinct⟩
        rw [List.mem_append, List.mem_singleton]
        rintro (hb | rfl)
        · exact (hrest other hother).2 hb
        · exact hnew hother

theorem passes_ofBinding_iff {shadowing : Bool} {before : List (Text × Trail)} {name : Text}
    {place : Trail} :
    (∀ finding ∈ ofBinding shadowing before name place, finding.Passes) ↔
      Name.isValid name = true ∧ (shadowing = false → name ∉ before.map Prod.fst) := by
  rw [← Assoc.lookup_eq_none_iff_notMem_keys]
  unfold ofBinding
  by_cases hvalid : Name.isValid name = true
  · rw [if_pos hvalid]
    cases shadowing with
    | true => simp [hvalid]
    | false => cases before.lookup name <;> simp [Passes, hvalid]
  · rw [if_neg hvalid]
    simp [Passes, hvalid]

/-- The literals that a pattern mentions can all be written down, and the names that it binds are
all valid and, where bindings may not shadow each other, all different from each other and from
those bound before. -/
theorem passes_ofMentions_iff {shadowing : Bool} {before : List (Text × Trail)}
    {mentions : List Mention} :
    (∀ finding ∈ ofMentions shadowing before mentions, finding.Passes) ↔
      (∀ value ∈ mentions.filterMap Mention.literal?, value.fits = true) ∧
      (∀ name ∈ (mentions.filterMap Mention.site?).map Prod.fst, Name.isValid name = true) ∧
        (shadowing = false → ((mentions.filterMap Mention.site?).map Prod.fst).Nodup ∧
          ∀ name ∈ (mentions.filterMap Mention.site?).map Prod.fst,
            name ∉ before.map Prod.fst) := by
  induction mentions generalizing before with
  | nil => simp [ofMentions]
  | cons mention rest ih =>
    cases mention with
    | literal value =>
      simp only [ofMentions, List.forall_mem_cons, ih, List.filterMap_cons, Mention.literal?,
        Mention.site?, and_assoc]
      rfl
    | name name place =>
      simp only [ofMentions, List.forall_mem_append, ih, passes_ofBinding_iff, List.filterMap_cons,
        Mention.literal?, Mention.site?, List.map_cons, List.forall_mem_cons, List.nodup_cons,
        List.map_append, List.map_nil]
      constructor
      · rintro ⟨⟨hvalid, hfresh⟩, hfit, hrest, hdistinct⟩
        refine ⟨hfit, ⟨hvalid, hrest⟩, fun hno => ?_⟩
        obtain ⟨hnodup, hnew⟩ := hdistinct hno
        refine ⟨⟨fun hname => ?_, hnodup⟩, hfresh hno, fun other hother => ?_⟩
        · exact hnew name hname (List.mem_append_right _ (List.mem_singleton_self _))
        · exact fun hb => hnew other hother (List.mem_append_left _ hb)
      · rintro ⟨hfit, ⟨hvalid, hrest⟩, hdistinct⟩
        refine ⟨⟨hvalid, fun hno => (hdistinct hno).2.1⟩, hfit, hrest, fun hno => ?_⟩
        obtain ⟨⟨hname, hnodup⟩, -, hold⟩ := hdistinct hno
        refine ⟨hnodup, fun other hother => ?_⟩
        rw [List.mem_append, List.mem_singleton]
        rintro (hb | rfl)
        · exact hold other hother hb
        · exact hname hother

theorem passes_mentions_iff {shadowing : Bool} {trail : Trail} {p : Pattern} :
    (∀ finding ∈ ofMentions shadowing [] (p.mentions trail), finding.Passes) ↔
      p.NamesFit shadowing ∧ p.LiteralsFit := by
  rw [passes_ofMentions_iff, p.sites_mentions, p.names_occurrences, p.literals_mentions, and_comm]
  simp [Pattern.NamesFit, Pattern.LiteralsFit]

end Finding

namespace Expr

/-- Can a node itself be turned into a part of a script? -/
def Fits (shadowing : Bool) (e : Expr) : Prop := e.NamesFit shadowing ∧ e.LiteralsFit

variable {shadowing : Bool}

mutual

/-- No order matters to whether there is anything to fail at. -/
theorem passes_findings_iff {trail : Trail} {e : Expr} :
    (∀ finding ∈ e.findings shadowing trail, finding.Passes) ↔
      ∀ s ∈ e.subexprs, s.Fits shadowing := by
  cases e with
  | literal value =>
    rw [findings, List.forall_mem_singleton, subexprs, List.forall_mem_singleton, Fits, NamesFit,
      true_and]
    rfl
  | var name =>
    simp only [findings, passes_ofName_iff, subexprs, List.forall_mem_singleton, Fits, NamesFit,
      LiteralsFit, and_true]
  | list items =>
    rw [findings, subexprs, List.forall_mem_cons, passes_items_iff]
    simp [Fits, NamesFit, LiteralsFit]
  | binop op left right =>
    rw [findings, List.forall_mem_append, List.forall_mem_append, passes_findings_iff,
      passes_ofOperator_iff, passes_findings_iff, subexprs, List.forall_mem_cons,
      List.forall_mem_append]
    simp only [Fits, NamesFit, LiteralsFit, and_true]
    exact and_left_comm
  | letIn name value body =>
    rw [findings, List.forall_mem_append, List.forall_mem_append, passes_ofName_iff,
      passes_findings_iff, passes_findings_iff, subexprs, List.forall_mem_cons,
      List.forall_mem_append]
    simp only [Fits, NamesFit, LiteralsFit, and_true]
  | apply function args =>
    rw [findings, List.forall_mem_append, passes_findings_iff, passes_items_iff, subexprs,
      List.forall_mem_cons, List.forall_mem_append]
    simp only [Fits, NamesFit, LiteralsFit, true_and, and_true]
  | lambda params body =>
    rw [findings, List.forall_mem_append, passes_ofParams_iff, passes_findings_iff, subexprs,
      List.forall_mem_cons]
    simp [Fits, NamesFit, LiteralsFit]
  | cases subject clauses =>
    rw [findings, List.forall_mem_append, passes_findings_iff, passes_clauses_iff, subexprs,
      List.forall_mem_cons, List.forall_mem_append]
    have hclauses : (cases subject clauses).Fits shadowing ↔ ∀ clause ∈ reached clauses,
        clause.pattern.NamesFit shadowing ∧ clause.pattern.LiteralsFit :=
      ⟨fun h clause hclause => ⟨h.1 clause hclause, h.2 clause hclause⟩,
        fun h => ⟨fun clause hclause => (h clause hclause).1,
          fun clause hclause => (h clause hclause).2⟩⟩
    rw [hclauses]
    exact and_left_comm

theorem passes_items_iff {trail : Trail} {index : Nat} {items : List Expr} :
    (∀ finding ∈ itemFindings shadowing trail index items, finding.Passes) ↔
      ∀ s ∈ itemSubexprs items, s.Fits shadowing := by
  cases items with
  | nil => simp [itemFindings, itemSubexprs]
  | cons item rest =>
    rw [itemFindings, List.forall_mem_append, passes_findings_iff, passes_items_iff, itemSubexprs,
      List.forall_mem_append]

theorem passes_clauses_iff {trail : Trail} {index : Nat} {clauses : List Clause} :
    (∀ finding ∈ clauseFindings shadowing trail index clauses, finding.Passes) ↔
      (∀ clause ∈ reached clauses,
        clause.pattern.NamesFit shadowing ∧ clause.pattern.LiteralsFit) ∧
        ∀ s ∈ clauseSubexprs clauses, s.Fits shadowing := by
  cases clauses with
  | nil => simp [clauseFindings, clauseSubexprs, reached]
  | cons clause rest =>
    obtain ⟨pattern, body⟩ := clause
    rw [clauseFindings, List.forall_mem_append, List.forall_mem_append, passes_mentions_iff,
      passes_findings_iff, clauseSubexprs, List.forall_mem_append, reached]
    by_cases h : pattern.catchesAll = true
    · rw [if_pos h, if_pos h, if_pos h, List.forall_mem_singleton]
      constructor
      · rintro ⟨hpattern, hbody, -⟩
        exact ⟨hpattern, hbody, List.forall_mem_nil _⟩
      · rintro ⟨hpattern, hbody, -⟩
        exact ⟨hpattern, hbody, passes_ofDropped trail index rest.length⟩
    · rw [if_neg h, if_neg h, if_neg h, passes_clauses_iff, List.forall_mem_cons]
      constructor
      · rintro ⟨hpattern, hbody, hrest, hparts⟩
        exact ⟨⟨hpattern, hrest⟩, hbody, hparts⟩
      · rintro ⟨⟨hpattern, hrest⟩, hbody, hparts⟩
        exact ⟨hpattern, hbody, hrest, hparts⟩

end

end Expr

/-! ## What holds of all findings -/

namespace Finding

variable {P : Finding → Prop}

/-- Does a property hold of all faults of names and of all warnings? -/
structure HoldsOfNames (P : Finding → Prop) : Prop where
  invalidName (name : Text) (place : Trail) : P (fault (.invalidName name place))
  boundTwice (name : Text) (first again : Trail) : P (fault (.boundTwice name first again))
  repeatedParameter (name : Text) (first again : Trail) :
    P (fault (.repeatedParameter name first again))
  warning (diagnostic : Diagnostic) : P (warning diagnostic)

namespace HoldsOfNames

theorem ofName (h : HoldsOfNames P) (trail : Trail) (name : Text) :
    ∀ finding ∈ ofName trail name, P finding := by
  unfold Finding.ofName
  split
  · exact List.forall_mem_nil _
  · exact List.forall_mem_singleton.mpr (h.invalidName name trail)

theorem ofParams (h : HoldsOfNames P) (trail : Trail) (before params : List Text) :
    ∀ finding ∈ ofParams trail before params, P finding := by
  induction params generalizing before with
  | nil => exact List.forall_mem_nil _
  | cons param rest ih =>
    rw [Finding.ofParams, List.forall_mem_append]
    refine ⟨?_, ih _⟩
    split
    · exact List.forall_mem_singleton.mpr (h.repeatedParameter ..)
    · exact h.ofName _ param

theorem ofBinding (h : HoldsOfNames P) (shadowing : Bool) (before : List (Text × Trail))
    (name : Text) (place : Trail) :
    ∀ finding ∈ ofBinding shadowing before name place, P finding := by
  unfold Finding.ofBinding
  by_cases hvalid : Name.isValid name = true
  · rw [if_pos hvalid]
    cases shadowing with
    | true => exact List.forall_mem_nil _
    | false =>
      cases before.lookup name with
      | none => exact List.forall_mem_nil _
      | some first => exact List.forall_mem_singleton.mpr (h.boundTwice name first place)
  · rw [if_neg hvalid]
    exact List.forall_mem_singleton.mpr (h.invalidName name place)

theorem ofMentions (h : HoldsOfNames P) {shadowing : Bool} {before : List (Text × Trail)}
    {mentions : List Mention}
    (hliterals : ∀ value ∈ mentions.filterMap Mention.literal?, P (literal value)) :
    ∀ finding ∈ ofMentions shadowing before mentions, P finding := by
  induction mentions generalizing before with
  | nil => exact List.forall_mem_nil _
  | cons mention rest ih =>
    cases mention with
    | literal value =>
      obtain ⟨hvalue, hrest⟩ := List.forall_mem_cons.mp hliterals
      exact List.forall_mem_cons.mpr ⟨hvalue, ih hrest⟩
    | name name place =>
      exact List.forall_mem_append.mpr ⟨h.ofBinding shadowing before name place, ih hliterals⟩

theorem ofDropped (h : HoldsOfNames P) (trail : Trail) (index dropped : Nat) :
    ∀ finding ∈ ofDropped trail index dropped, P finding := by
  unfold Finding.ofDropped
  rw [List.forall_mem_map]
  exact fun later _ => h.warning _

end HoldsOfNames

theorem forall_mem_ofOperator {trail : Trail} {op : Text}
    (h : op.isOperator = false → P (fault (.invalidOperator op trail))) :
    ∀ finding ∈ ofOperator trail op, P finding := by
  unfold ofOperator
  split
  · exact List.forall_mem_nil _
  · rename_i hop
    exact List.forall_mem_singleton.mpr (h (Bool.eq_false_iff.mpr hop))

theorem passes_iff {finding : Finding} :
    finding.Passes ↔ finding.Fits ∧ finding.fault? = none := by
  cases finding <;> simp [Passes, Fits, fault?]

theorem holdsOfNames_fits : HoldsOfNames Fits where
  invalidName _ _ := trivial
  boundTwice _ _ _ := trivial
  repeatedParameter _ _ _ := trivial
  warning _ := trivial

end Finding

namespace Expr

variable {P : Finding → Prop}

/-- Does a property hold of the literals that a node itself holds, and of the fault of its operator
if it has one? -/
def OwnHold (P : Finding → Prop) : Expr → Prop
  | literal value => P (.literal value)
  | binop op _ _ => op.isOperator = false → ∀ place, P (fault (.invalidOperator op place))
  | cases _ clauses =>
    ∀ clause ∈ reached clauses, ∀ value ∈ clause.pattern.literals, P (.literal value)
  | _ => True

mutual

theorem forall_mem_findings (hP : HoldsOfNames P) {trail : Trail} {e : Expr}
    (h : ∀ s ∈ e.subexprs, s.OwnHold P) : ∀ finding ∈ e.findings shadowing trail, P finding := by
  cases e with
  | literal value =>
    have hvalue : (literal value).OwnHold P := h _ (List.mem_singleton_self _)
    exact List.forall_mem_singleton.mpr hvalue
  | var name => exact hP.ofName trail name
  | list items => exact forall_mem_itemFindings hP (List.forall_mem_cons.mp h).2
  | binop op left right =>
    obtain ⟨hop, hparts⟩ := List.forall_mem_cons.mp h
    obtain ⟨hleft, hright⟩ := List.forall_mem_append.mp hparts
    exact List.forall_mem_append.mpr ⟨forall_mem_findings hP hleft,
      List.forall_mem_append.mpr
        ⟨forall_mem_ofOperator fun hno => hop hno _, forall_mem_findings hP hright⟩⟩
  | letIn name value body =>
    obtain ⟨-, hparts⟩ := List.forall_mem_cons.mp h
    obtain ⟨hvalue, hbody⟩ := List.forall_mem_append.mp hparts
    exact List.forall_mem_append.mpr ⟨hP.ofName _ name, List.forall_mem_append.mpr
      ⟨forall_mem_findings hP hvalue, forall_mem_findings hP hbody⟩⟩
  | apply function args =>
    obtain ⟨-, hparts⟩ := List.forall_mem_cons.mp h
    obtain ⟨hfunction, hargs⟩ := List.forall_mem_append.mp hparts
    exact List.forall_mem_append.mpr
      ⟨forall_mem_findings hP hfunction, forall_mem_itemFindings hP hargs⟩
  | lambda params body =>
    exact List.forall_mem_append.mpr ⟨hP.ofParams trail [] params,
      forall_mem_findings hP (List.forall_mem_cons.mp h).2⟩
  | cases subject clauses =>
    obtain ⟨hpatterns, hparts⟩ := List.forall_mem_cons.mp h
    obtain ⟨hsubject, hclauses⟩ := List.forall_mem_append.mp hparts
    exact List.forall_mem_append.mpr ⟨forall_mem_findings hP hsubject,
      forall_mem_clauseFindings hP hpatterns hclauses⟩

theorem forall_mem_itemFindings (hP : HoldsOfNames P) {trail : Trail} {index : Nat}
    {items : List Expr} (h : ∀ s ∈ itemSubexprs items, s.OwnHold P) :
    ∀ finding ∈ itemFindings shadowing trail index items, P finding := by
  cases items with
  | nil => exact List.forall_mem_nil _
  | cons item rest =>
    obtain ⟨hitem, hrest⟩ := List.forall_mem_append.mp h
    exact List.forall_mem_append.mpr
      ⟨forall_mem_findings hP hitem, forall_mem_itemFindings hP hrest⟩

theorem forall_mem_clauseFindings (hP : HoldsOfNames P) {trail : Trail} {index : Nat}
    {clauses : List Clause}
    (hpatterns : ∀ clause ∈ reached clauses, ∀ value ∈ clause.pattern.literals, P (.literal value))
    (h : ∀ s ∈ clauseSubexprs clauses, s.OwnHold P) :
    ∀ finding ∈ clauseFindings shadowing trail index clauses, P finding := by
  cases clauses with
  | nil => exact List.forall_mem_nil _
  | cons clause rest =>
    obtain ⟨pattern, body⟩ := clause
    have hpattern : ∀ value ∈ pattern.literals, P (.literal value) := by
      refine hpatterns ⟨pattern, body⟩ ?_
      unfold reached
      split <;> exact List.mem_cons_self
    rw [← pattern.literals_mentions] at hpattern
    obtain ⟨hbody, hrest⟩ := List.forall_mem_append.mp h
    refine List.forall_mem_append.mpr ⟨hP.ofMentions hpattern,
      List.forall_mem_append.mpr ⟨forall_mem_findings hP hbody, ?_⟩⟩
    by_cases hcatches : pattern.catchesAll = true
    · rw [if_pos hcatches]
      exact hP.ofDropped trail index rest.length
    · rw [if_neg hcatches] at hrest ⊢
      rw [reached, if_neg hcatches] at hpatterns
      exact forall_mem_clauseFindings hP (List.forall_mem_cons.mp hpatterns).2 hrest

end

theorem fits_findings {trail : Trail} {e : Expr} (h : e.Writable) :
    ∀ finding ∈ e.findings shadowing trail, finding.Fits := by
  refine forall_mem_findings holdsOfNames_fits fun s hs => ?_
  have hown := h s hs
  cases s with
  | literal value => exact hown
  | binop op left right => exact fun _ _ => trivial
  | cases subject clauses => exact hown
  | _ => trivial

end Expr
end CaseScript
