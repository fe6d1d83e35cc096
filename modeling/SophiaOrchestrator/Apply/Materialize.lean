import SophiaOrchestrator.Effects.Relational
import SophiaOrchestrator.Apply.Runs

/-!
# Materialized worktrees

After an `Execute` the worktree of each successful group is copied below the target path by a
`mkdir` and a `cp` that the runtime executes.  `materializeWorktrees` looks at the error of
`Client.Execute` only: a receipt of a command that was run and failed is no error.
-/

namespace SophiaOrchestrator.Apply

open Effects Prog

variable {cfg : RunConfig} {x : Nat} {p : Phase} {results : GroupID → Option GroupOutcome}

def toMaterialize (results : GroupID → Option GroupOutcome) (g : Group) : Bool :=
  !((results g.id).all (fun outcome => outcome.failed)) && decide (g.worktreePath ≠ "")

/-- How the copy of one group went: no directory, no copy, or both commands were answered. -/
inductive Copy where
  | noDir (g : Group) (err : String)
  | notCopied (g : Group) (made : WireResult) (err : String)
  | answered (g : Group) (made copied : WireResult)

namespace Copy

def group : Copy → Group
  | .noDir g _ | .notCopied g _ _ | .answered g _ _ => g

/-- Both commands have a receipt with the status success. -/
def succeeded : Copy → Bool
  | .answered _ made copied => decide (made.status = .success ∧ copied.status = .success)
  | _ => false

/-- Neither call returned an error. -/
def counted : Copy → Bool
  | .answered _ _ _ => true
  | _ => false

def report (p : Phase) (g : Group) : Event :=
  ⟨.publishEvent p.id (.materializeError g.id), ()⟩

/-- The answered commands and the published event of one group, newest first. -/
def events (cfg : RunConfig) (x : Nat) (p : Phase) : Copy → History
  | .noDir g err =>
    [report p g, ⟨.runtimeExecute (.parent x) (.mkdir (materializeTarget cfg g.name)), .error err⟩]
  | .notCopied g made err =>
    [report p g,
      ⟨.runtimeExecute (.parent x)
        (.copy (g.worktreePath ++ "/.") (materializeTarget cfg g.name ++ "/")), .error err⟩,
      ⟨.runtimeExecute (.parent x) (.mkdir (materializeTarget cfg g.name)), .ok made⟩]
  | .answered g made copied =>
    [⟨.runtimeExecute (.parent x)
        (.copy (g.worktreePath ++ "/.") (materializeTarget cfg g.name ++ "/")), .ok copied⟩,
      ⟨.runtimeExecute (.parent x) (.mkdir (materializeTarget cfg g.name)), .ok made⟩]

end Copy

/-- The copies of the successful groups in the order of the board, with a count of them: what
they answered is the history between the two events of the materialization. -/
structure Materialized (cfg : RunConfig) (x : Nat) (p : Phase) (board : Board)
    (results : GroupID → Option GroupOutcome) (copies : List Copy) (count : Nat) (h : History) :
    Prop where
  groups : copies.map Copy.group = board.groups.filter (toMaterialize results)
  hist : h = ⟨.publishEvent p.id (.materializeCompleted cfg.targetPath count), ()⟩ ::
    (copies.reverse.flatMap (Copy.events cfg x p) ++
      [⟨.publishEvent p.id (.materializeStarted cfg.targetPath), ()⟩])

/-- The published count is the number of groups whose copy was `good`, and every other group
that was to be copied has been reported. -/
def WellReported (good : Copy → Bool) (cfg : RunConfig) (x : Nat) (p : Phase) (board : Board)
    (results : GroupID → Option GroupOutcome) (h : History) : Prop :=
  ∃ copies, Materialized cfg x p board results copies (copies.countP good) h ∧
    ∀ c ∈ copies, good c = false → Copy.report p c.group ∈ c.events cfg x p

/-! ## The loop -/

abbrev Traces {α : Type} (R : α → History → Prop) (prog : Program α) (h : History) : Prop :=
  prog.wp (histSem fun _ _ => True) (fun _ => True) R h

theorem traces_perform {α : Type} {op : Op} {f : op.Ret → Program α} {R : α → History → Prop}
    {h : History} (hf : ∀ answer, Traces R (f answer) (⟨op, answer⟩ :: h)) :
    Traces R (perform op >>= f) h :=
  wp_perform_bind (fun _ _ => trivial) fun answer _ => hf answer

theorem traces_runtimeExecute {α : Type} {ctx : Ctx} {command : RuntimeCommand}
    {f : Except String Receipt → Program α} {R : α → History → Prop} {h : History}
    (herr : ∀ err, Traces R (f (.error err)) (⟨.runtimeExecute ctx command, .error err⟩ :: h))
    (hok : ∀ w : WireResult,
      Traces R (f (.ok w.receipt)) (⟨.runtimeExecute ctx command, .ok w⟩ :: h)) :
    Traces R (runtimeExecute ctx command >>= f) h := by
  refine wp_bind (traces_perform fun answer => ?_)
  cases answer with
  | error err => exact herr err
  | ok w => exact hok w

def Copied (cfg : RunConfig) (x : Nat) (p : Phase) (results : GroupID → Option GroupOutcome)
    (groups : List Group) (count : Nat) (h : History) (total : Nat) (h' : History) : Prop :=
  ∃ copies : List Copy, copies.map Copy.group = groups.filter (toMaterialize results) ∧
    total = count + copies.countP Copy.counted ∧
    h' = copies.reverse.flatMap (Copy.events cfg x p) ++ h

theorem materializeFrom_traces (groups : List Group) (count : Nat) (h : History) :
    Traces (Copied cfg x p results groups count h)
      (materializeFrom cfg x p results groups count) h := by
  induction groups generalizing count h with
  | nil => exact ⟨[], rfl, rfl, rfl⟩
  | cons g rest ih =>
    -- The rest of the loop, after the copy of this group.
    have hnext : ∀ (c : Copy) (n : Nat), c.group = g → toMaterialize results g = true →
        n = count + (if c.counted then 1 else 0) →
        Traces (Copied cfg x p results (g :: rest) count h)
          (materializeFrom cfg x p results rest n) (c.events cfg x p ++ h) := by
      intro c n hgroup hmember hn
      refine wp_mono (ih n _) (fun _ => id) ?_
      rintro total h' ⟨copies, hgroups, htotal, hhist⟩
      refine ⟨c :: copies, by simp [hgroup, hgroups, hmember], ?_, by simp [hhist]⟩
      rw [htotal, hn, List.countP_cons]
      omega
    unfold materializeFrom
    split
    · next hskip =>
      have hmember : toMaterialize results g = false := by
        rcases hskip with hfailed | hpath
        · simp [toMaterialize, hfailed]
        · simp [toMaterialize, hpath]
      refine wp_mono (ih count h) (fun _ => id) fun total h' hcopied => ?_
      rwa [Copied, List.filter_cons_of_neg (by simp [hmember])]
    · next hnot =>
      have hmember : toMaterialize results g = true := by
        simpa [toMaterialize, not_or] using hnot
      refine traces_runtimeExecute (fun err => ?_) fun made => ?_
      · exact traces_perform fun _ => hnext (.noDir g err) count rfl hmember rfl
      · refine traces_runtimeExecute (fun err => ?_) fun copied => ?_
        · exact traces_perform fun _ => hnext (.notCopied g made err) count rfl hmember rfl
        · exact hnext (.answered g made copied) (count + 1) rfl hmember rfl

/-- The groups whose commands were both answered are counted, and all others are reported,
whatever the runtime answers. -/
theorem wellReported_answered (cfg : RunConfig) (x : Nat) (p : Phase) (board : Board)
    (results : GroupID → Option GroupOutcome) :
    Traces (fun _ h => WellReported Copy.counted cfg x p board results h)
      (materializeWorktrees cfg x p board results) [] := by
  refine traces_perform fun _ => wp_bind ?_
  refine wp_mono (materializeFrom_traces board.groups 0 _) (fun _ => id) ?_
  rintro count h ⟨copies, hgroups, rfl, rfl⟩
  refine (wp_hist_call _ _ _).mpr fun _ _ => ⟨trivial, copies, ⟨hgroups, ?_⟩, ?_⟩
  · rw [Nat.zero_add]
  · intro c _ hfailed
    cases c with
    | noDir g err | notCopied g made err => exact List.mem_cons_self
    | answered g made copied => cases hfailed

theorem copies_eq_of_events {copies copies' : List Copy} {h : History}
    (hgroups : copies.map Copy.group = copies'.map Copy.group)
    (hevents : copies.flatMap (Copy.events cfg x p) ++ h =
      copies'.flatMap (Copy.events cfg x p) ++ h) : copies = copies' := by
  induction copies generalizing copies' with
  | nil => exact (List.map_eq_nil_iff.mp hgroups.symm).symm
  | cons c copies ih =>
    obtain ⟨c', copies', rfl⟩ := List.exists_cons_of_ne_nil fun hnil =>
      List.cons_ne_nil _ _ (hgroups.trans (congrArg _ hnil))
    obtain ⟨hgroup, hgroups⟩ := List.cons.inj hgroups
    suffices c = c' ∧ copies.flatMap (Copy.events cfg x p) ++ h =
        copies'.flatMap (Copy.events cfg x p) ++ h from by rw [this.1, ih hgroups this.2]
    cases c <;> cases c' <;>
      simp_all [Copy.events, Copy.report, Copy.group]

theorem Materialized.copies_eq {board : Board} {copies copies' : List Copy} {n n' : Nat}
    {h : History} (hm : Materialized cfg x p board results copies n h)
    (hm' : Materialized cfg x p board results copies' n' h) : copies = copies' := by
  have hevents := (List.cons.inj (hm.hist.symm.trans hm'.hist)).2
  have hgroups := hm.groups.trans hm'.groups.symm
  rw [← List.reverse_inj]
  refine copies_eq_of_events ?_ hevents
  rw [List.map_reverse, List.map_reverse, hgroups]

/-- The count and the reports are right exactly if no group whose two commands were answered has a
receipt that does not say success. -/
theorem wellReported_iff (cfg : RunConfig) (x : Nat) (p : Phase) (board : Board)
    (results : GroupID → Option GroupOutcome) :
    Traces (fun _ h => ∃ copies,
        Materialized cfg x p board results copies (copies.countP Copy.counted) h ∧
          (WellReported Copy.succeeded cfg x p board results h ↔
            ∀ c ∈ copies, c.counted = true → c.succeeded = true))
      (materializeWorktrees cfg x p board results) [] := by
  refine wp_mono (wellReported_answered cfg x p board results) (fun _ => id) ?_
  rintro _ h ⟨copies, hm, hreported⟩
  refine ⟨copies, hm, ?_, fun hgood => ?_⟩
  · rintro ⟨copies', hm', hreported'⟩ c hc hcounted
    obtain rfl := hm.copies_eq hm'
    by_contra hfailed
    have hreport := hreported' c hc (by simpa using hfailed)
    cases c with
    | answered g made copied => simp [Copy.report, Copy.events] at hreport
    | _ => cases hcounted
  · have hsame : ∀ c ∈ copies, c.counted = true ↔ c.succeeded = true := by
      intro c hc
      refine ⟨hgood c hc, fun hsucceeded => ?_⟩
      cases c with
      | answered g made copied => rfl
      | _ => cases hsucceeded
    rw [List.countP_congr hsame] at hm
    exact ⟨copies, hm, fun c hc hfailed => hreported c hc (by
      simpa [hfailed] using mt (hsame c hc).mp)⟩

def oneGroup : Board :=
  { Board.new ⟨3⟩ ⟨2⟩ with
    groups := [{ Group.new ⟨4⟩ ⟨3⟩ "web" [] with worktreePath := "/w/web" }] }

def failingCopy (n : Nat) : Choice :=
  { receipt := .ok { status := if n = 2 then .failure else .success, exitCode := some 1 } }

def failedCopy : History :=
  ((materializeWorktrees { targetPath := "/t" } 0 samplePhase oneGroup
    fun _ => some { failed := false }).eval (handler {}) (fun _ => false) failingCopy 0 {}).hist

def told : Event → Option (Nat ⊕ ReceiptStatus)
  | ⟨.publishEvent _ (.materializeCompleted _ n), _⟩ => some (.inl n)
  | ⟨.runtimeExecute _ _, .ok result⟩ => some (.inr result.status)
  | _ => none

/-- The group counts as materialized, and is not reported. -/
theorem failed_copy_counted :
    ¬WellReported Copy.succeeded { targetPath := "/t" } 0 samplePhase oneGroup
      (fun _ => some { failed := false }) failedCopy := by
  rintro ⟨copies, ⟨hgroups, hhist⟩, -⟩
  obtain ⟨c, rfl⟩ : ∃ c, copies = [c] := List.length_eq_one_iff.mp (by
    simpa [oneGroup, toMaterialize, Board.new] using congrArg List.length hgroups)
  have htold : failedCopy.filterMap told = [.inl 1, .inr .failure, .inr .success] := by decide
  rw [hhist] at htold
  cases c with
  | noDir g err | notCopied g made err => cases htold
  | answered g made copied =>
    simp only [Copy.events, List.reverse_singleton, List.flatMap_cons, List.flatMap_nil,
      List.append_nil, List.cons_append, List.nil_append] at htold
    obtain ⟨hcount, hrest⟩ := List.cons.inj htold
    have hfailed : copied.status = .failure := by
      injection hrest with hcopied
      exact Sum.inr.inj hcopied
    simp [Copy.succeeded, hfailed] at hcount

end SophiaOrchestrator.Apply
