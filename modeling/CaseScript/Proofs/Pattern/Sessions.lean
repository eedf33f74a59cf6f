import CaseScript.Proofs.Pattern.Compiler
import CaseScript.Proofs.Pattern.Lowering

/-!
# Sessions of a compiler

A session is a run of calls of one compiler, of which some may be given up. All that the compiler
holds can be told from the demands that its calls have met, be they finished or given up.
-/

namespace CaseScript

variable {σ : Type} {shadowing : Bool}

namespace Lowering

/-- The demands that are met, which are those before the first that cannot be met. -/
def met (shadowing : Bool) (lowering : Lowering σ) : List (Demand σ) → List (Demand σ)
  | [] => []
  | demand :: rest =>
    match lowering.meet shadowing demand with
    | .ok next => demand :: next.met shadowing rest
    | .error _ => []

/-- Is this the fault of a binding that cannot be made, where `trails` says what is bound
already? -/
def Refuses (shadowing : Bool) (trails : List (Text × Trail)) (binding : Binding σ) :
    NamingFault → Prop
  | .invalidName name trail =>
    Name.isValid binding.name = false ∧ name = binding.name ∧ trail = binding.trail
  | .boundTwice name first again =>
    shadowing = false ∧ Name.isValid binding.name = true ∧
      trails.lookup binding.name = some first ∧ name = binding.name ∧ again = binding.trail
  | _ => False

theorem meetAll_met (lowering : Lowering σ) (demands : List (Demand σ)) :
    lowering.meetAll shadowing (lowering.met shadowing demands) =
      ((lowering.meetAll shadowing demands).1, none) := by
  induction demands generalizing lowering with
  | nil => rfl
  | cons demand rest ih =>
    rw [met, meetAll]
    cases hmeet : lowering.meet shadowing demand with
    | ok next =>
      dsimp only
      rw [meetAll, hmeet]
      exact ih next
    | error fault => rfl

theorem met_of_success {lowering : Lowering σ} {demands : List (Demand σ)}
    (h : (lowering.meetAll shadowing demands).2 = none) :
    lowering.met shadowing demands = demands := by
  induction demands generalizing lowering with
  | nil => rfl
  | cons demand rest ih =>
    rw [meetAll] at h
    rw [met]
    cases hmeet : lowering.meet shadowing demand with
    | ok next =>
      rw [hmeet] at h
      exact congrArg (demand :: ·) (ih h)
    | error fault =>
      rw [hmeet] at h
      cases h

theorem refuses_of_bind {lowering : Lowering σ} {binding : Binding σ} {fault : NamingFault}
    (h : lowering.bind shadowing binding = .error fault) :
    Refuses shadowing (entries Binding.trail lowering.bindings) binding fault := by
  rcases bind_eq_error.mp h with ⟨hinvalid, rfl⟩ | ⟨hvalid, hshadowing, first, hfirst, rfl⟩
  · exact ⟨hinvalid, rfl, rfl⟩
  · have hplace : (entries Binding.trail lowering.bindings).lookup binding.name =
        some first.trail := by
      rw [Compiler.lookup_entries]
      exact congrArg (Option.map Binding.trail) hfirst
    exact ⟨hshadowing, hvalid, hplace, rfl, rfl⟩

/-- A fault is that of the demand right behind those that were met, which is a binding. -/
theorem met_of_fault {lowering : Lowering σ} {demands : List (Demand σ)} {fault : NamingFault}
    (h : (lowering.meetAll shadowing demands).2 = some fault) :
    ∃ binding rest, demands = lowering.met shadowing demands ++ .bind binding :: rest ∧
      Refuses shadowing
        (entries Binding.trail (lowering.meetAll shadowing demands).1.bindings) binding fault := by
  induction demands generalizing lowering with
  | nil => cases h
  | cons demand rest ih =>
    rw [meetAll] at h ⊢
    rw [met]
    cases hmeet : lowering.meet shadowing demand with
    | ok next =>
      rw [hmeet] at h
      obtain ⟨binding, later, hsplit, hrefuses⟩ := ih h
      exact ⟨binding, later, congrArg (demand :: ·) hsplit, hrefuses⟩
    | error other =>
      rw [hmeet] at h
      cases h
      obtain ⟨binding, rfl, hbind⟩ := meet_eq_error hmeet
      exact ⟨binding, rest, rfl, refuses_of_bind hbind⟩

theorem meetAll_append {lowering next : Lowering σ} {first : List (Demand σ)}
    (h : lowering.meetAll shadowing first = (next, none)) (second : List (Demand σ)) :
    lowering.meetAll shadowing (first ++ second) = next.meetAll shadowing second := by
  induction first generalizing lowering with
  | nil =>
    cases h
    rfl
  | cons demand rest ih =>
    rw [meetAll] at h
    rw [List.cons_append, meetAll]
    cases hmeet : lowering.meet shadowing demand with
    | ok other =>
      rw [hmeet] at h
      exact ih h
    | error fault =>
      rw [hmeet] at h
      cases h

end Lowering

namespace Compiler

/-- A compiler after a session. -/
def after (shadowing : Bool) (root : Trail) (calls : List (Call σ)) : Compiler σ :=
  calls.foldl (fun compiler call => (compile shadowing root call compiler).1) {}

/-- How a call ends that follows a session. -/
def outcome (shadowing : Bool) (root : Trail) (calls : List (Call σ)) (call : Call σ) :
    Except Stop (Compiled σ) :=
  (compile shadowing root call (after shadowing root calls)).2

/-- What the pattern of a call asks for. -/
def Call.demands (root : Trail) (call : Call σ) : List (Demand σ) :=
  call.pattern.demands (.subject call.subject) root

end Compiler

open Compiler

namespace Lowering

/-! ## Logs -/

def extendAll (shadowing : Bool) (root : Trail) (lowering : Lowering σ) (calls : List (Call σ)) :
    Lowering σ :=
  calls.foldl (fun lowering call => (lowering.extend shadowing root call.subject call.pattern).1)
    lowering

/-- All demands that are met in a session. -/
def log (shadowing : Bool) (root : Trail) (lowering : Lowering σ) : List (Call σ) → List (Demand σ)
  | [] => []
  | call :: rest =>
    lowering.met shadowing (call.demands root) ++
      (lowering.extend shadowing root call.subject call.pattern).1.log shadowing root rest

variable {root : Trail}

theorem extendAll_append (lowering : Lowering σ) (calls more : List (Call σ)) :
    lowering.extendAll shadowing root (calls ++ more) =
      (lowering.extendAll shadowing root calls).extendAll shadowing root more :=
  List.foldl_append ..

theorem log_append (lowering : Lowering σ) (calls more : List (Call σ)) :
    lowering.log shadowing root (calls ++ more) =
      lowering.log shadowing root calls ++
        (lowering.extendAll shadowing root calls).log shadowing root more := by
  induction calls generalizing lowering with
  | nil => rfl
  | cons call rest ih =>
    rw [List.cons_append, log, log, ih, List.append_assoc]
    rfl

/-- A session comes to the same as its log, none of which is refused. -/
theorem meetAll_log (lowering : Lowering σ) (calls : List (Call σ)) :
    lowering.meetAll shadowing (lowering.log shadowing root calls) =
      (lowering.extendAll shadowing root calls, none) := by
  induction calls generalizing lowering with
  | nil => rfl
  | cons call rest ih =>
    rw [log, meetAll_append (meetAll_met ..)]
    exact ih _

/-- Where no name may shadow another, a session adds bindings behind those made before. -/
theorem exists_bindings_extendAll (lowering : Lowering σ) (calls : List (Call σ)) :
    ∃ new, (lowering.extendAll false root calls).bindings = lowering.bindings ++ new :=
  ⟨_, bindings_meetAll (meetAll_log lowering calls)⟩

end Lowering

namespace Compiler

open Lowering

/-- The lowering that the calls of a session extend. -/
def lowered (shadowing : Bool) (root : Trail) (calls : List (Call σ)) : Lowering σ :=
  ({} : Lowering σ).extendAll shadowing root calls

/-- The demands that the calls of a session have met. -/
def logged (shadowing : Bool) (root : Trail) (calls : List (Call σ)) : List (Demand σ) :=
  ({} : Lowering σ).log shadowing root calls

variable {root : Trail}

theorem lowered_append (calls more : List (Call σ)) :
    lowered shadowing root (calls ++ more) =
      (lowered shadowing root calls).extendAll shadowing root more :=
  extendAll_append {} calls more

theorem logged_append (calls more : List (Call σ)) :
    logged shadowing root (calls ++ more) =
      logged shadowing root calls ++ (lowered shadowing root calls).log shadowing root more :=
  log_append {} calls more

theorem meetAll_logged (calls : List (Call σ)) :
    ({} : Lowering σ).meetAll shadowing (logged shadowing root calls) =
      (lowered shadowing root calls, none) :=
  meetAll_log {} calls

theorem after_eq (calls : List (Call σ)) :
    after shadowing root calls = ofLowering (lowered shadowing root calls) := by
  have hfold : ∀ lowering : Lowering σ,
      calls.foldl (fun compiler call => (compile shadowing root call compiler).1)
        (ofLowering lowering) = ofLowering (lowering.extendAll shadowing root calls) := by
    induction calls with
    | nil => exact fun _ => rfl
    | cons call rest ih =>
      intro lowering
      have hcall : (compile shadowing root call (ofLowering lowering)).1 =
          ofLowering (lowering.extend shadowing root call.subject call.pattern).1 := by
        rw [compile_ofLowering]
        obtain ⟨next, _ | fault⟩ := lowering.extend shadowing root call.subject call.pattern <;> rfl
      rw [List.foldl_cons, hcall, ih]
      rfl
  exact hfold {}

section Calls

variable {calls : List (Call σ)} {call : Call σ}

theorem after_concat : after shadowing root (calls ++ [call]) =
    ofLowering ((lowered shadowing root calls).meetAll shadowing (call.demands root)).1 := by
  rw [after_eq, lowered_append]
  rfl

theorem logged_concat : logged shadowing root (calls ++ [call]) =
    logged shadowing root calls ++
      (lowered shadowing root calls).met shadowing (call.demands root) := by
  rw [logged_append, log, log, List.append_nil]

theorem outcome_eq : outcome shadowing root calls call =
    match (lowered shadowing root calls).meetAll shadowing (call.demands root) with
    | (next, none) => .ok ⟨next.checks, entries Binding.ref next.bindings⟩
    | (_, some fault) => .error (.fault fault) := by
  have hextend : (lowered shadowing root calls).extend shadowing root call.subject call.pattern =
      (lowered shadowing root calls).meetAll shadowing (call.demands root) := rfl
  rw [outcome, after_eq, compile_ofLowering, hextend]
  obtain ⟨next, _ | fault⟩ :=
    (lowered shadowing root calls).meetAll shadowing (call.demands root) <;> rfl

/-- A call succeeds if all demands of its pattern are met, and returns what is held then. -/
theorem outcome_eq_ok {result : Compiled σ} (h : outcome shadowing root calls call = .ok result) :
    ((lowered shadowing root calls).meetAll shadowing (call.demands root)).2 = none ∧
      result.checks = (after shadowing root (calls ++ [call])).checks ∧
      result.refs = (after shadowing root (calls ++ [call])).refs := by
  rw [outcome_eq] at h
  rw [after_concat]
  split at h
  · rename_i next hmeets
    cases h
    rw [hmeets]
    exact ⟨rfl, rfl, rfl⟩
  · cases h

theorem outcome_eq_error {stop : Stop} (h : outcome shadowing root calls call = .error stop) :
    ∃ fault, stop = .fault fault ∧
      ((lowered shadowing root calls).meetAll shadowing (call.demands root)).2 = some fault := by
  rw [outcome_eq] at h
  split at h
  · cases h
  · rename_i last fault hmeets
    cases h
    exact ⟨fault, rfl, congrArg Prod.snd hmeets⟩

end Calls

/-! ## What a compiler holds -/

section Tables

variable (calls : List (Call σ))

theorem checks_after : (after shadowing root calls).checks =
    (logged shadowing root calls).filterMap Demand.check? := by
  rw [after_eq]
  exact (of_meetAll (meetAll_logged calls) Binding.ref).1

theorem checks_prefix_after (more : List (Call σ)) :
    (after shadowing root calls).checks <+: (after shadowing root (calls ++ more)).checks := by
  rw [checks_after, checks_after, logged_append, List.filterMap_append]
  exact List.prefix_append ..

theorem entries_after {α : Type} (f : Binding σ → α) :
    entries f (lowered shadowing root calls).bindings =
      Assoc.insertAll [] (entries f ((logged shadowing root calls).filterMap Demand.binding?)) :=
  (of_meetAll (meetAll_logged calls) f).2.1

/-- The names stand in the order in which they are bound first. -/
theorem names_after : (after shadowing root calls).refs.map Prod.fst =
    (((logged shadowing root calls).filterMap Demand.binding?).map Binding.name).eraseDups := by
  rw [after_eq]
  change (entries Binding.ref _).map Prod.fst = _
  rw [entries_after, Assoc.keys_insertAll_nil, keys_entries]

theorem trails_names_after : (after shadowing root calls).trails.map Prod.fst =
    (after shadowing root calls).refs.map Prod.fst := by
  rw [after_eq]
  change (entries Binding.trail _).map Prod.fst = (entries Binding.ref _).map Prod.fst
  rw [keys_entries, keys_entries]

/-- Each table has the value of the latest binding. -/
theorem lookup_after {α : Type} (f : Binding σ → α) (name : Text) :
    (entries f (lowered shadowing root calls).bindings).lookup name =
      (((logged shadowing root calls).filterMap Demand.binding?).reverse.find?
        (·.name = name)).map f := by
  have hreverse : ∀ bindings : List (Binding σ),
      (entries f bindings).reverse = entries f bindings.reverse :=
    fun bindings => List.map_reverse.symm
  rw [entries_after, Assoc.lookup_insertAll, hreverse, lookup_entries]
  exact Option.or_none

theorem isValid_of_mem_after {name : Text}
    (h : name ∈ (after shadowing root calls).refs.map Prod.fst) : Name.isValid name = true := by
  rw [after_eq] at h
  change name ∈ (entries Binding.ref _).map Prod.fst at h
  rw [entries_after, Assoc.mem_keys_insertAll, keys_entries] at h
  obtain ⟨binding, hbinding, rfl⟩ := List.mem_map.mp (h.resolve_left List.not_mem_nil)
  exact (of_meetAll (meetAll_logged calls) Binding.ref).2.2 binding hbinding

/-- Where no name may shadow another, later calls leave the tables as they are. -/
theorem lookup_after_append {α : Type} (f : Binding σ → α) (more : List (Call σ)) {name : Text}
    (h : name ∈ (after false root calls).refs.map Prod.fst) :
    (entries f (lowered false root (calls ++ more)).bindings).lookup name =
      (entries f (lowered false root calls).bindings).lookup name := by
  rw [after_eq] at h
  change name ∈ (entries Binding.ref _).map Prod.fst at h
  rw [keys_entries, ← keys_entries f] at h
  rw [lowered_append]
  obtain ⟨new, hnew⟩ := exists_bindings_extendAll (lowered false root calls) more
  have hsplit : entries f ((lowered false root calls).extendAll false root more).bindings =
      entries f (lowered false root calls).bindings ++ entries f new := by
    rw [hnew]
    exact List.map_append
  rw [hsplit, List.lookup_append]
  cases hfound : (entries f (lowered false root calls).bindings).lookup name with
  | none => exact absurd h (Assoc.lookup_eq_none_iff_notMem_keys.mp hfound)
  | some value => rfl

end Tables

/-! ## Sessions -/

/-- What holds after a session, where `log` says what demands have been met in a session. -/
structure Consistent (shadowing : Bool) (root : Trail) (log : List (Call σ) → List (Demand σ))
    (calls : List (Call σ)) : Prop where
  /-- The tables are those of the lowering that the same calls extend. -/
  after_eq : after shadowing root calls = ofLowering (lowered shadowing root calls)
  /-- A name that is bound is on record in both tables. -/
  names_eq : (after shadowing root calls).trails.map Prod.fst =
    (after shadowing root calls).refs.map Prod.fst
  placed : ∀ call name, outcome shadowing root calls call ≠ .error (.unplaced name)
  valid : ∀ name ∈ (after shadowing root calls).refs.map Prod.fst, Name.isValid name = true
  returned : ∀ call result, outcome shadowing root calls call = .ok result →
    result.checks = (after shadowing root (calls ++ [call])).checks ∧
      result.refs = (after shadowing root (calls ++ [call])).refs
  checks_extend : ∀ call more later result result',
    outcome shadowing root calls call = .ok result →
    outcome shadowing root (calls ++ call :: more) later = .ok result' →
    result.checks <+: result'.checks
  checks_eq : (after shadowing root calls).checks = (log calls).filterMap Demand.check?
  /-- The names stand in the order in which they first occur. -/
  names_in_order : (after shadowing root calls).refs.map Prod.fst =
    (((log calls).filterMap Demand.binding?).map Binding.name).eraseDups
  log_nil : log [] = []
  /-- A call that succeeds has met all that its pattern asks for. -/
  log_of_success : ∀ call result, outcome shadowing root calls call = .ok result →
    log (calls ++ [call]) = log calls ++ call.demands root
  /-- A call that is given up has met just what comes before the binding that it fails at. -/
  log_of_fault : ∀ call fault, outcome shadowing root calls call = .error (.fault fault) →
    ∃ met binding rest, call.demands root = met ++ .bind binding :: rest ∧
      log (calls ++ [call]) = log calls ++ met ∧
      Refuses shadowing (after shadowing root (calls ++ [call])).trails binding fault
  /-- The latest binding of a name counts. -/
  latest : ∀ name,
    let latest? := ((log calls).filterMap Demand.binding?).reverse.find? (·.name = name)
    (after shadowing root calls).refs.lookup name = latest?.map Binding.ref ∧
      (after shadowing root calls).trails.lookup name = latest?.map Binding.trail
  /-- Where no name may shadow another, what is bound stays as it is. -/
  unchanged : shadowing = false → ∀ more,
    ∀ name ∈ (after shadowing root calls).refs.map Prod.fst,
    (after shadowing root (calls ++ more)).refs.lookup name =
        (after shadowing root calls).refs.lookup name ∧
      (after shadowing root (calls ++ more)).trails.lookup name =
        (after shadowing root calls).trails.lookup name

/-- Whatever a compiler is called for and however its calls end, it stays consistent. -/
theorem consistent_after_session (shadowing : Bool) (root : Trail) (calls : List (Call σ)) :
    Consistent shadowing root (logged shadowing root) calls := by
  constructor
  case after_eq => exact after_eq calls
  case names_eq => exact trails_names_after calls
  case placed =>
    intro call name h
    obtain ⟨fault, hstop, -⟩ := outcome_eq_error h
    cases hstop
  case valid => exact fun name h => isValid_of_mem_after calls h
  case returned => exact fun call result h => (outcome_eq_ok h).2
  case checks_extend =>
    intro call more later result result' h h'
    obtain ⟨-, hchecks, -⟩ := outcome_eq_ok h
    obtain ⟨-, hchecks', -⟩ := outcome_eq_ok h'
    have hcalls : calls ++ call :: more ++ [later] = (calls ++ [call]) ++ (more ++ [later]) := by
      simp only [List.append_assoc, List.cons_append, List.nil_append]
    rw [hchecks, hchecks', hcalls]
    exact checks_prefix_after (calls ++ [call]) (more ++ [later])
  case checks_eq => exact checks_after calls
  case names_in_order => exact names_after calls
  case log_nil => rfl
  case log_of_success =>
    intro call result h
    rw [logged_concat, met_of_success (outcome_eq_ok h).1]
  case log_of_fault =>
    intro call fault h
    obtain ⟨_, hstop, hfault⟩ := outcome_eq_error h
    cases hstop
    obtain ⟨binding, rest, hsplit, hrefuses⟩ := met_of_fault hfault
    refine ⟨_, binding, rest, hsplit, logged_concat, ?_⟩
    rw [after_concat]
    exact hrefuses
  case latest =>
    intro name latest?
    rw [after_eq]
    exact ⟨lookup_after calls Binding.ref name, lookup_after calls Binding.trail name⟩
  case unchanged =>
    rintro rfl more name hname
    rw [after_eq, after_eq]
    exact ⟨lookup_after_append calls Binding.ref more hname,
      lookup_after_append calls Binding.trail more hname⟩

/-- The second call is given up at `x`, behind `y`; the third one goes on from there. -/
example :
    let name (s : String) : Pattern := .var (Text.ofString s)
    let calls : List (Call String) :=
      [⟨.list [name "x"], "$"⟩, ⟨.list [name "y", name "x", name "z"], "$"⟩, ⟨name "z", "$"⟩]
    let compiler := after false (.root "pattern") calls
    compiler.refs.map Prod.fst = [Text.ofString "x", Text.ofString "y", Text.ofString "z"] ∧
      compiler.checks.length = 2 ∧
      compiler.trails.lookup (Text.ofString "z") = some (.root "pattern") :=
  ⟨rfl, rfl, rfl⟩

end Compiler

end CaseScript
