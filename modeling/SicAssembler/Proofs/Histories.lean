import SicAssembler.Assembly.Session
import Mathlib.Data.List.Induction

/-!
# Histories of a session

A session remembers its policy and the result of its last run, and a run reads only the policy. So
whatever was asked before, a run has the outcome that it has in a fresh session.
-/

namespace SicAssembler

/-- The run that a request asks for under a policy, if it asks for one. -/
def Request.run? (policy : Policy) (d : Disk) : Request → Option (Logged Fault Assembly)
  | .text source opcodes filename => some (Assembly.ofText policy opcodes filename source)
  | .lines contents opcodes filename => some (Assembly.ofLines policy opcodes filename contents)
  | .file path opcodes => some (Assembly.ofFile policy d path opcodes)
  | .configure _ => none

def Request.policy? : Request → Option Policy
  | .configure policy => some policy
  | _ => none

namespace Logged

variable {α β : Type} {x : Logged Fault α}

theorem map_of_ok {a : α} (h : x.result = .ok a) (f : α → β) : f <$> x = ⟨x.log, .ok (f a)⟩ := by
  rw [← bind_pure_comp, bind_of_ok h, result_pure, log_pure, List.append_nil]

theorem map_of_error {e : Fault} (h : x.result = .error e) (f : α → β) :
    f <$> x = ⟨x.log, .error e⟩ := by
  rw [← bind_pure_comp, bind_of_error h]

end Logged

namespace Session

namespace Action

variable {α β : Type} {s : Session} {x : Action Assembly} {run : Logged Fault Assembly}

/-- Whether an action on a session has the outcome of a run and leaves its result in the session, if
it has one. -/
def Makes (s : Session) (x : Action Assembly) (run : Logged Fault Assembly) : Prop :=
  x s = (⟨s.policy, run.result.toOption⟩, run)

theorem bind_apply_of_ok {x : Action α} {a : α} (h : (x s).2.result = .ok a) (f : α → Action β) :
    (x >>= f) s =
      ((f a (x s).1).1, ⟨(x s).2.log ++ (f a (x s).1).2.log, (f a (x s).1).2.result⟩) := by
  change Action.bind x f s = _
  simp only [Action.bind, h]

theorem bind_apply_of_error {x : Action α} {e : Fault} (h : (x s).2.result = .error e)
    (f : α → Action β) : (x >>= f) s = ((x s).1, ⟨(x s).2.log, .error e⟩) := by
  change Action.bind x f s = _
  simp only [Action.bind, h]

theorem bind_apply_of_pure {x : Action α} {s' : Session} {a : α} (h : x s = (s', pure a))
    (f : α → Action β) : (x >>= f) s = f a s' := by
  rw [bind_apply_of_ok (a := a) (by rw [h]; rfl), h]
  rfl

/-- What does not concern the session may fail as long as the session holds no result. -/
theorem Makes.lift_bind {y : Logged Fault α} {f : α → Action Assembly}
    {g : α → Logged Fault Assembly} (hs : s.result = none) (h : ∀ a, Makes s (f a) (g a)) :
    Makes s (lift y >>= f) (y >>= g) := by
  unfold Makes
  cases hy : y.result with
  | ok a => rw [bind_apply_of_ok hy, Logged.bind_of_ok hy, lift, h a]
  | error e =>
    rw [bind_apply_of_error hy, Logged.bind_of_error hy, lift]
    obtain ⟨policy, result⟩ := s
    cases hs
    rfl

theorem Makes.clear_bind {f : Unit → Action Assembly} (h : Makes (start s.policy) (f ()) run) :
    Makes s (clear >>= f) run := by
  rw [Makes, bind_apply_of_pure (x := clear) rfl]
  exact h

theorem Makes.policy_bind {f : Policy → Action Assembly} (h : Makes s (f s.policy) run) :
    Makes s (policy >>= f) run := by
  rw [Makes, bind_apply_of_pure (x := policy) rfl]
  exact h

theorem map_apply_of_ok {x : Action α} {a : α} (h : (x s).2.result = .ok a) (f : α → β) :
    (f <$> x) s = ((x s).1, ⟨(x s).2.log, .ok (f a)⟩) := by
  have hmap : (f <$> x) s = ((x s).1, ⟨(x s).2.log ++ [], .ok (f a)⟩) :=
    bind_apply_of_ok h fun a => pure (f a)
  rw [hmap, List.append_nil]

theorem map_apply_of_error {x : Action α} {e : Fault} (h : (x s).2.result = .error e)
    (f : α → β) : (f <$> x) s = ((x s).1, ⟨(x s).2.log, .error e⟩) :=
  bind_apply_of_error h fun a => pure (f a)

theorem Makes.map_some (h : Makes s x run) :
    (some <$> x) s = (⟨s.policy, run.result.toOption⟩, some <$> run) := by
  have hresult : (x s).2.result = run.result := congrArg (·.2.result) h
  cases hrun : run.result with
  | ok a => rw [map_apply_of_ok (hresult.trans hrun), Logged.map_of_ok hrun, h, hrun]
  | error e => rw [map_apply_of_error (hresult.trans hrun), Logged.map_of_error hrun, h, hrun]

/-- An assembly is kept after it was made, and reported after that. -/
theorem keep_makes (s : Session) (a : Assembly) (n : Notice) :
    Makes s (keep a >>= fun _ => lift (Logged.note n) >>= fun _ => pure a)
      (Logged.note n >>= fun _ => pure a) := by
  rw [Makes, bind_apply_of_pure (x := keep a) rfl]
  rfl

theorem assembleLines_makes (s : Session) (lines : List String) (opcodes : OpcodeSource)
    (filename : String) :
    Makes s (assembleLines lines opcodes filename)
      (Assembly.ofLines s.policy opcodes filename lines) := by
  apply Makes.clear_bind
  apply Makes.lift_bind rfl
  intro table
  apply Makes.lift_bind rfl
  intro _
  apply Makes.policy_bind
  apply Makes.lift_bind rfl
  intro layout
  apply Makes.policy_bind
  apply Makes.lift_bind rfl
  intro records
  exact keep_makes _ _ _

/-- A run on a file is one on its lines, with the opcodes of the other file if there is one. -/
theorem ofFile_eq (policy : Policy) (d : Disk) (path : String) (opcodes : Option String) :
    Assembly.ofFile policy d path opcodes = (do
      let source ← fileOpcodes d opcodes
      let lines ← (Logged.ofExcept (d.lines path)).mapError .unreadable
      Assembly.ofLines policy source path lines) := by
  cases opcodes with
  | none => rfl
  | some opcodes =>
    rw [fileOpcodes, bind_map_left]
    rfl

theorem assembleFile_makes (s : Session) (d : Disk) (path : String) (opcodes : Option String) :
    Makes s (assembleFile d path opcodes) (Assembly.ofFile s.policy d path opcodes) := by
  rw [ofFile_eq]
  apply Makes.clear_bind
  apply Makes.lift_bind rfl
  intro source
  apply Makes.lift_bind rfl
  intro lines
  exact assembleLines_makes _ lines source path

end Action

/-- What was asked of a session, each time with the disk as it was then. -/
abbrev History := List (Disk × Request)

def after (policy : Policy) (history : History) : Session :=
  history.foldl (fun s x => (s.perform x.1 x.2).state) (start policy)

def policyAfter (policy : Policy) (history : History) : Policy :=
  (history.filterMap fun x => x.2.policy?).getLast?.getD policy

variable {s : Session} {d : Disk} {request : Request} {run : Logged Fault Assembly}
  {policy : Policy} {history : History}

@[simp] theorem after_concat (policy : Policy) (history : History) (d : Disk) (request : Request) :
    after policy (history ++ [(d, request)]) =
      ((after policy history).perform d request).state := by
  simp [after]

theorem policyAfter_concat (policy : Policy) (history : History) (d : Disk) (request : Request) :
    policyAfter policy (history ++ [(d, request)]) =
      request.policy?.getD (policyAfter policy history) := by
  cases h : request.policy? with
  | none => simp [policyAfter, h]
  | some p => simp [policyAfter, h]

/-- A request for a run gives what the run gives, and keeps it. -/
theorem act_of_run (h : request.run? s.policy d = some run) :
    act d request s = (⟨s.policy, run.result.toOption⟩, some <$> run) := by
  cases request with
  | configure policy => cases h
  | text source opcodes filename =>
    cases h
    exact (Action.assembleLines_makes s _ opcodes filename).map_some
  | lines lines opcodes filename =>
    cases h
    exact (Action.assembleLines_makes s lines opcodes filename).map_some
  | file path opcodes =>
    cases h
    exact (Action.assembleFile_makes s d path opcodes).map_some

theorem perform_of_ok {a : Assembly} (h : request.run? s.policy d = some run)
    (ha : run.result = .ok a) :
    s.perform d request = ⟨⟨s.policy, some a⟩, run.log, none⟩ := by
  rw [perform, act_of_run h, Logged.map_of_ok ha, ha]
  rfl

theorem perform_of_error {e : Fault} (h : request.run? s.policy d = some run)
    (he : run.result = .error e) :
    s.perform d request = ⟨⟨s.policy, none⟩, run.log, some e⟩ := by
  rw [perform, act_of_run h, Logged.map_of_error he, he]
  rfl

/-- A request that asks for no run changes the policy and nothing else. -/
theorem perform_of_policy (h : request.policy? = some policy) :
    s.perform d request = .done ⟨policy, s.result⟩ := by
  cases request with
  | configure policy =>
    cases h
    rfl
  | text source opcodes filename => cases h
  | lines lines opcodes filename => cases h
  | file path opcodes => cases h

theorem exists_run_of_policy?_eq_none (h : request.policy? = none) (policy : Policy) (d : Disk) :
    ∃ run, request.run? policy d = some run := by
  cases request with
  | configure policy => cases h
  | text source opcodes filename => exact ⟨_, rfl⟩
  | lines lines opcodes filename => exact ⟨_, rfl⟩
  | file path opcodes => exact ⟨_, rfl⟩

/-- A run reads only the policy of the session. -/
theorem act_eq_start (h : request.run? s.policy d = some run) :
    act d request s = act d request (start s.policy) := by
  have hstart : request.run? (start s.policy).policy d = some run := h
  rw [act_of_run h, act_of_run hstart]
  rfl

theorem state_perform (s : Session) (d : Disk) (request : Request) :
    (s.perform d request).state = (act d request s).1 := by
  unfold perform
  split <;> simp [*]

theorem policy_perform (s : Session) (d : Disk) (request : Request) :
    (s.perform d request).state.policy = request.policy?.getD s.policy := by
  cases h : request.policy? with
  | some policy =>
    rw [perform_of_policy h]
    rfl
  | none =>
    obtain ⟨run, hrun⟩ := exists_run_of_policy?_eq_none h s.policy d
    rw [state_perform, act_of_run hrun]
    rfl

theorem policy_after (policy : Policy) (history : History) :
    (after policy history).policy = policyAfter policy history := by
  induction history using List.reverseRecOn with
  | nil => rfl
  | append_singleton history x ih =>
    obtain ⟨d, request⟩ := x
    rw [after_concat, policy_perform, ih, policyAfter_concat]

theorem result_after_append {more : History} (h : ∀ x ∈ more, x.2.policy?.isSome = true) :
    (after policy (history ++ more)).result = (after policy history).result := by
  induction more using List.reverseRecOn with
  | nil => rw [List.append_nil]
  | append_singleton more x ih =>
    obtain ⟨d, request⟩ := x
    rw [List.forall_mem_append, List.forall_mem_singleton] at h
    obtain ⟨p, hp⟩ := Option.isSome_iff_exists.mp h.2
    rw [← List.append_assoc, after_concat, perform_of_policy hp]
    exact ih h.1

end Session

open Session

/-- Whatever was asked of a session before, a run has the outcome that it has in a fresh session
under the policy in force, and gives what the assembler makes of its source: the session then holds
the result that was given, or none if the run failed. A change of the policy changes no result, so a
session holds the result of its last run, if that succeeded. -/
theorem session_runs_are_independent (policy : Policy) (history : History) (d : Disk)
    (request : Request) :
    let s := after policy history
    let current := policyAfter policy history
    (∀ run, request.run? current d = some run →
      act d request s = act d request (start current) ∧
      s.perform d request = (start current).perform d request ∧
      (∀ a, run.result = .ok a → (act d request s).2.result = .ok (some a) ∧
        (s.perform d request).state.result = some a ∧ (s.perform d request).refusal = none) ∧
      ∀ e, run.result = .error e → (act d request s).2.result = .error e ∧
        (s.perform d request).state.result = none ∧
        (s.perform d request).refusal = some e) ∧
    (∀ p, request = .configure p → s.perform d request = .done ⟨p, s.result⟩) ∧
    (∀ run changes, request.run? current d = some run →
      (∀ x ∈ changes, x.2.policy?.isSome = true) →
      (after policy (history ++ (d, request) :: changes)).result = run.result.toOption) ∧
    ((∀ x ∈ history, x.2.policy?.isSome = true) → s.result = none) := by
  dsimp only
  rw [← policy_after]
  refine ⟨?_, ?_, ?_, ?_⟩
  · intro run hrun
    refine ⟨act_eq_start hrun, ?_, ?_, ?_⟩
    · rw [perform, perform, act_eq_start hrun]
    · intro a ha
      rw [act_of_run hrun, Logged.map_of_ok ha, perform_of_ok hrun ha]
      exact ⟨rfl, rfl, rfl⟩
    · intro e he
      rw [act_of_run hrun, Logged.map_of_error he, perform_of_error hrun he]
      exact ⟨rfl, rfl, rfl⟩
  · rintro p rfl
    exact perform_of_policy rfl
  · intro run changes hrun hchanges
    rw [List.append_cons, result_after_append hchanges, after_concat, state_perform,
      act_of_run hrun]
  · intro hchanges
    have hresult : (after policy ([] ++ history)).result = (after policy []).result :=
      result_after_append hchanges
    exact hresult

/-- A run that succeeds, then runs that fail at the opcodes, at the file and at a statement, and
changes of the policy. -/
def variedHistory : History :=
  [(.empty, .text "P START 1000\nA LDA NOPE" .standard "a.asm"),
    (.empty, .configure ⟨.strict, .reject⟩),
    (.empty, .text "A LDA -" (.text "LDA") "b.asm"),
    (.empty, .file "c.asm" none),
    (.empty, .lines ["A RESW x"] .standard "d.asm"),
    (.empty, .configure ⟨.lenient, .reject⟩)]

theorem runs_after_varied_history :
    policyAfter {} (variedHistory.take 2) = ⟨.strict, .reject⟩ ∧
    policyAfter {} variedHistory = ⟨.lenient, .reject⟩ ∧
    (after {} (variedHistory.take 2)).result.isSome = true ∧
    (after {} variedHistory).result = none ∧
    (∃ e, (Assembly.ofLines ⟨.strict, .reject⟩ .standard "e.asm" ["B LDA C"]).result = .error e ∧
      ((after {} (variedHistory.take 2)).perform .empty
        (.lines ["B LDA C"] .standard "e.asm")).state.result = none ∧
      ((after {} (variedHistory.take 2)).perform .empty
        (.lines ["B LDA C"] .standard "e.asm")).refusal = some e) ∧
    ∃ a, (Assembly.ofLines ⟨.lenient, .reject⟩ .standard "e.asm" ["B LDA C"]).result = .ok a ∧
      (act .empty (.lines ["B LDA C"] .standard "e.asm") (after {} variedHistory)).2.result =
        .ok (some a) ∧
      ((after {} variedHistory).perform .empty
        (.lines ["B LDA C"] .standard "e.asm")).state.result = some a := by
  refine ⟨rfl, rfl, by decide +kernel, by decide +kernel, ?_, ?_⟩
  · have hrun : (Assembly.ofLines ⟨.strict, .reject⟩ .standard "e.asm" ["B LDA C"]).result =
        .error (.diagnostic ⟨.undefinedSymbol "C" [], some ⟨"e.asm", 1, 7⟩, some "B LDA C",
          none⟩) := by decide +kernel
    obtain ⟨hruns, -⟩ := session_runs_are_independent {} (variedHistory.take 2) .empty
      (.lines ["B LDA C"] .standard "e.asm")
    obtain ⟨-, -, -, herror⟩ := hruns _ rfl
    exact ⟨_, hrun, (herror _ hrun).2⟩
  · have hrun : ∃ a, (Assembly.ofLines ⟨.lenient, .reject⟩ .standard "e.asm"
        ["B LDA C"]).result = .ok a ∧ decide (a.objectCode.length = 3) = true :=
      Logged.exists_of_any (by decide +kernel)
    obtain ⟨a, ha, -⟩ := hrun
    obtain ⟨hruns, -⟩ := session_runs_are_independent {} variedHistory .empty
      (.lines ["B LDA C"] .standard "e.asm")
    obtain ⟨-, -, hok, -⟩ := hruns _ rfl
    exact ⟨a, ha, (hok a ha).1, (hok a ha).2.1⟩

end SicAssembler
