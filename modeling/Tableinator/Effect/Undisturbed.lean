import Tableinator.Effect.Solo

/-! # A task that nothing disturbs

While no other task is woken and nothing acts from outside, a task has the loop to itself:
it finds at each wait what it left.  A routine is a finite tree, so with its waits answered
it ends, and what its triple says of the end then holds of a run of the loop
(`Sound.finishes`). -/

namespace Effect

variable {S K Job Choice Env ε α : Type} {Wait : Type → Type}

/-- The discipline of a task that nothing else moves under, and whose waits get `fair`
    answers. -/
def undisturbed (fair : Choice → Prop) : Discipline S K Choice Wait where
  inv _ := True
  rely _ := Eq
  guar _ _ _ := True
  opens _ _ _ := True
  entry _ _ _ := True
  exit _ _ := True
  locks _ := True
  world _ _ := True
  admits _ _ := True
  fair := fun choice _ _ => fair choice

variable {M : Machine S K Job Choice Env Wait ε} {fair : Choice → Prop} {stop : Option ε}

/-- A routine enters nothing but what it may when it may enter everything. -/
theorem Routine.enters_of_forall {ok : K → Prop} (hok : ∀ κ, ok κ) (p : Routine S K Wait ε α)
    (s : S) : Routine.Enters ok p s := by
  induction p generalizing s with
  | done a => trivial
  | raise e => trivial
  | call op k ih =>
    cases op with
    | sync f => exact ih _ _
    | enter κ test result =>
      simp only [Routine.Enters]
      split
      · exact ⟨hok κ, ih _ _⟩
      · exact ih _ _
    | leave result => exact ih _ _
    | wait w => trivial
    | acquire κ result => trivial

namespace EventLoop

/-- No task is under way, and none is left in a section. -/
def Quiescent (l : EventLoop S K Wait ε) : Prop :=
  ∀ task ∈ l.tasks, Routine.Ended task.program ∧ task.held = []

instance [DecidableEq K] (l : EventLoop S K Wait ε) : Decidable l.Quiescent :=
  inferInstanceAs (Decidable (∀ task ∈ l.tasks, Routine.Ended task.program ∧ task.held = []))

variable (admits : K → List (List K) → Prop) (permits : Choice → ∀ {ρ : Type}, Wait ρ → Prop)

/-- The answers to the waits of one task, in their order. -/
def answering (index : Nat) (answers : Nat → Choice) (n : Nat) : List (LoopEvent Job Choice Env) :=
  (List.range n).map fun i => .answer index (answers i)

theorem answering_succ (index : Nat) (answers : Nat → Choice) (n : Nat) :
    (answering index answers (n + 1) : List (LoopEvent Job Choice Env)) =
      .answer index (answers 0) :: answering index (fun i => answers (i + 1)) n := by
  rw [answering, List.range_succ_eq_map, List.map_cons, List.map_map]
  rfl

/-- What a run may be asked of does not stand in the way of a task beside ended ones. -/
structure Permissive (answers : Nat → Choice) : Prop where
  admits : ∀ κ others, (∀ held ∈ others, held = []) → admits κ others
  permits : ∀ i {ρ : Type} (w : Wait ρ), permits (answers i) w

variable {admits permits}

theorem Permissive.tail {answers : Nat → Choice}
    (h : Permissive admits permits answers) :
    Permissive admits permits fun i => answers (i + 1) :=
  ⟨h.admits, fun i => h.permits (i + 1)⟩

theorem others_last (s : S) (before : List (Task S K Wait ε)) (task : Task S K Wait ε) :
    (EventLoop.mk s (before ++ [task])).others before.length = before.map Task.held := by
  simp [others, List.eraseIdx_append_of_length_le]

theorem resume_last {s s' : S} {before : List (Task S K Wait ε)} {task : Task S K Wait ε}
    {p : Routine S K Wait ε Unit} {held : List K} :
    (EventLoop.mk s (before ++ [task])).resume before.length task p held s' =
      ⟨(p.settle held s').2.2,
        before ++ [⟨task.interrupt, (p.settle held s').2.1, (p.settle held s').1⟩]⟩ := by
  simp [resume]

variable [DecidableEq K]

theorem step_wait {s s' : S} {before : List (Task S K Wait ε)} {interrupt : Option ε}
    {held : List K} {ρ : Type} {w : Wait ρ} {k : Except ε ρ → Routine S K Wait ε Unit}
    {choice : Choice} {reply : Except ε ρ} (h : M.perform choice s w = some (reply, s')) :
    (EventLoop.mk s (before ++ [⟨interrupt, held, .call (.wait w) k⟩])).step M
        (.answer before.length choice) =
      some ⟨((k reply).settle held s').2.2,
        before ++ [⟨interrupt, ((k reply).settle held s').2.1, ((k reply).settle held s').1⟩]⟩ := by
  simp [step, answerStep, h, resume_last]

theorem step_acquire {s : S} {before : List (Task S K Wait ε)} {interrupt : Option ε}
    {held : List K} {ρ : Type} {κ : K} {result : ρ} {k : Except ε ρ → Routine S K Wait ε Unit}
    {choice : Choice} (hidle : ∀ held ∈ before.map Task.held, held = []) :
    (EventLoop.mk s (before ++ [⟨interrupt, held, .call (.acquire κ result) k⟩])).step M
        (.answer before.length choice) =
      some ⟨((k (.ok result)).settle (κ :: held) s).2.2,
        before ++ [⟨interrupt, ((k (.ok result)).settle (κ :: held) s).2.1,
          ((k (.ok result)).settle (κ :: held) s).1⟩]⟩ := by
  have hfree : ¬∃ other ∈ before.map Task.held, κ ∈ other := by
    rintro ⟨other, hmem, hκ⟩
    rw [hidle other hmem] at hκ
    cases hκ
  simp only [step, List.getElem?_concat_length, Option.bind_some, answerStep, others_last,
    if_neg hfree, resume_last]

variable [∀ κ others, Decidable (admits κ others)]
  [∀ choice {ρ : Type} (w : Wait ρ), Decidable (permits choice w)]

/-- A task beside ended ones gets its answers, up to its end. -/
theorem settled_finishes {p : Routine S K Wait ε Unit} {held : List K} {s : S}
    {Q : List K → S → Except ε Unit → Prop} {before : List (Task S K Wait ε)}
    (interrupt : Option ε) (hidle : ∀ held ∈ before.map Task.held, held = [])
    (htotal : ∀ choice s {ρ : Type} (w : Wait ρ), (M.perform choice s w).isSome = true)
    (h : Sound M (undisturbed fair) none p Q held s) {answers : Nat → Choice}
    (hfair : ∀ i, fair (answers i))
    (hpermissive : Permissive admits permits answers) :
    ∃ n s' held' program r, runWhile (EventLoop.step M) (EventLoop.Admits M admits permits)
        ⟨(p.settle held s).2.2, before ++ [⟨interrupt, (p.settle held s).2.1, (p.settle held s).1⟩]⟩
        (answering before.length answers n) = some ⟨s', before ++ [⟨interrupt, held', program⟩]⟩ ∧
      Routine.Ended program ∧ Q held' s' r := by
  have hok : ∀ s task κ, admits κ ((EventLoop.mk s (before ++ [task])).others before.length) := by
    intro s task κ
    rw [others_last]
    exact hpermissive.admits κ _ hidle
  induction p generalizing held s answers with
  | done a => exact ⟨0, s, held, .done a, .ok a, rfl, trivial, h⟩
  | raise e => exact ⟨0, s, held, .raise e, .error e, rfl, trivial, h⟩
  | call op k ih =>
    cases op with
    | sync f => exact ih _ h.2.2 hfair hpermissive
    | enter κ test result =>
      simp only [Routine.settle]
      cases htest : test s with
      | false => exact ih _ (h.2 htest) hfair hpermissive
      | true => exact ih _ ((h.1 htest).2 trivial) hfair hpermissive
    | leave result => exact ih _ h.2 hfair hpermissive
    | wait w =>
      obtain ⟨⟨reply, s'⟩, hperform⟩ := Option.isSome_iff_exists.1 (htotal (answers 0) s w)
      have hreply := ((h s rfl trivial).1 (answers 0) reply s' (hfair 0) hperform).2.2
      obtain ⟨n, s'', held', program, r, hrun, hend⟩ :=
        ih reply hreply (fun i => hfair (i + 1)) hpermissive.tail
      refine ⟨n + 1, s'', held', program, r, ?_, hend⟩
      rw [answering_succ, runWhile, List.foldlM_cons, if_pos]
      · simp only [Routine.settle]
        rw [step_wait hperform]
        exact hrun
      · intro task htask
        simp only [List.getElem?_concat_length, Option.mem_def, Option.some.injEq] at htask
        subst htask
        exact ⟨hpermissive.permits 0 w, fun outcome _ => Routine.enters_of_forall (hok s _) _ _⟩
    | acquire κ result =>
      have hacquired := (h.2 s rfl trivial).1 trivial
      obtain ⟨n, s'', held', program, r, hrun, hend⟩ :=
        ih (.ok result) hacquired (fun i => hfair (i + 1)) hpermissive.tail
      refine ⟨n + 1, s'', held', program, r, ?_, hend⟩
      rw [answering_succ, runWhile, List.foldlM_cons, if_pos]
      · simp only [Routine.settle]
        rw [step_acquire hidle]
        exact hrun
      · intro task htask
        simp only [List.getElem?_concat_length, Option.mem_def, Option.some.injEq] at htask
        subst htask
        exact ⟨hok s _ κ, Routine.enters_of_forall (hok s _) _ _⟩

/-- A job that has the loop to itself ends, whatever the answers to its waits, and as its
    triple says. -/
theorem job_finishes {l : EventLoop S K Wait ε} {Q : S → Prop} (hquiet : l.Quiescent) {job : Job}
    (htotal : ∀ choice s {ρ : Type} (w : Wait ρ), (M.perform choice s w).isSome = true)
    (h : Sound M (undisturbed fair) none (M.program job) (fun held s _ => held = [] ∧ Q s) []
      l.shared) {answers : Nat → Choice} (hfair : ∀ i, fair (answers i))
    (hpermissive : Permissive admits permits answers) :
    ∃ n l', runWhile (EventLoop.step M) (EventLoop.Admits M admits permits) l
        (.start job :: answering l.tasks.length answers n) = some l' ∧
      l'.Quiescent ∧ Q l'.shared := by
  have hidle : ∀ held ∈ l.tasks.map Task.held, held = [] := by
    intro held hmem
    obtain ⟨task, htask, rfl⟩ := List.mem_map.1 hmem
    exact (hquiet task htask).2
  obtain ⟨n, s', held', program, r, hrun, hended, rfl, hQ⟩ :=
    settled_finishes (M.interrupt job) hidle htotal h hfair hpermissive
  refine ⟨n, ⟨s', l.tasks ++ [⟨M.interrupt job, [], program⟩]⟩, ?_, ?_, hQ⟩
  · rw [runWhile, List.foldlM_cons, if_pos]
    · exact hrun
    · exact Routine.enters_of_forall (fun κ => hpermissive.admits κ _ hidle) _ _
  · intro task hmem
    rcases List.mem_append.1 hmem with hold | hnew
    · exact hquiet task hold
    · rw [List.mem_singleton.1 hnew]
      exact ⟨hended, rfl⟩

variable {ok : EventLoop S K Wait ε → LoopEvent Job Choice Env → Prop}
  [∀ l event, Decidable (ok l event)]

theorem runWhile_cons {l l' : EventLoop S K Wait ε} {event : LoopEvent Job Choice Env}
    {events : List (LoopEvent Job Choice Env)} :
    runWhile (EventLoop.step M) ok l (event :: events) = some l' ↔
      ok l event ∧ ∃ mid, l.step M event = some mid ∧ runWhile (EventLoop.step M) ok mid events = some l' := by
  rw [runWhile, List.foldlM_cons, Option.bind_eq_bind, Option.bind_eq_some_iff]
  by_cases hok : ok l event
  · simp only [hok, true_and]
    rfl
  · simp [hok]

/-- A task beside ended ones that has ended, after some answers, has ended as its triple says. -/
theorem settled_ends {p : Routine S K Wait ε Unit} {held : List K} {s : S}
    {Q : List K → S → Except ε Unit → Prop} {before : List (Task S K Wait ε)} {l' : EventLoop S K Wait ε}
    (interrupt : Option ε) (hidle : ∀ held ∈ before.map Task.held, held = [])
    (h : Sound M (undisturbed fair) none p Q held s) {answers : Nat → Choice} {n : Nat}
    (hfair : ∀ i, fair (answers i))
    (hrun : runWhile (EventLoop.step M) ok
      ⟨(p.settle held s).2.2, before ++ [⟨interrupt, (p.settle held s).2.1, (p.settle held s).1⟩]⟩
      (answering before.length answers n) = some l') (hquiet : l'.Quiescent) :
    ∃ held' r, Q held' l'.shared r := by
  have hended : ∀ {task : Task S K Wait ε} {s : S}, runWhile (EventLoop.step M) ok
      ⟨s, before ++ [task]⟩ (answering before.length answers 0) = some l' → Routine.Ended task.program := by
    intro task s hnone
    obtain rfl := Option.some.inj hnone
    exact (hquiet task (by simp)).1
  -- on the program: what runs to the next wait needs no answer, each wait takes one
  induction p generalizing held s answers n with
  | done a =>
    cases n with
    | zero =>
      obtain rfl := Option.some.inj hrun
      exact ⟨held, .ok a, h⟩
    | succ n =>
      rw [answering_succ, runWhile_cons] at hrun
      obtain ⟨_, mid, hstep, _⟩ := hrun
      simp [step, answerStep, Routine.settle] at hstep
  | raise e =>
    cases n with
    | zero =>
      obtain rfl := Option.some.inj hrun
      exact ⟨held, .error e, h⟩
    | succ n =>
      rw [answering_succ, runWhile_cons] at hrun
      obtain ⟨_, mid, hstep, _⟩ := hrun
      simp [step, answerStep, Routine.settle] at hstep
  | call op k ih =>
    cases op with
    | sync f => exact ih _ h.2.2 hfair hrun hended
    | enter κ test result =>
      simp only [Routine.settle] at hrun
      cases htest : test s with
      | false =>
        rw [htest] at hrun
        exact ih _ (h.2 htest) hfair hrun hended
      | true =>
        rw [htest] at hrun
        exact ih _ ((h.1 htest).2 trivial) hfair hrun hended
    | leave result => exact ih _ h.2 hfair hrun hended
    | wait w =>
      cases n with
      | zero => exact (hended hrun).elim
      | succ n =>
        rw [answering_succ, runWhile_cons] at hrun
        obtain ⟨_, mid, hstep, hrest⟩ := hrun
        cases hperform : M.perform (answers 0) s w with
        | none => simp [step, answerStep, Routine.settle, hperform] at hstep
        | some outcome =>
          obtain ⟨reply, s'⟩ := outcome
          simp only [Routine.settle] at hstep
          rw [step_wait hperform] at hstep
          obtain rfl := Option.some.inj hstep
          have hreply := ((h s rfl trivial).1 (answers 0) reply s' (hfair 0) hperform).2.2
          exact ih reply hreply (fun i => hfair (i + 1)) hrest hended
    | acquire κ result =>
      cases n with
      | zero => exact (hended hrun).elim
      | succ n =>
        rw [answering_succ, runWhile_cons] at hrun
        obtain ⟨_, mid, hstep, hrest⟩ := hrun
        simp only [Routine.settle] at hstep
        rw [step_acquire hidle] at hstep
        obtain rfl := Option.some.inj hstep
        exact ih (.ok result) ((h.2 s rfl trivial).1 trivial) (fun i => hfair (i + 1)) hrest hended

/-- A job that had the loop to itself and has ended leaves what its triple says. -/
theorem job_ends {l l' : EventLoop S K Wait ε} {Q : S → Prop} (hquiet : l.Quiescent) {job : Job}
    (h : Sound M (undisturbed fair) none (M.program job) (fun _ s _ => Q s) [] l.shared)
    {answers : Nat → Choice} {n : Nat} (hfair : ∀ i, fair (answers i))
    (hrun : runWhile (EventLoop.step M) ok l (.start job :: answering l.tasks.length answers n) = some l')
    (hquiet' : l'.Quiescent) : Q l'.shared := by
  have hidle : ∀ held ∈ l.tasks.map Task.held, held = [] := by
    intro held hmem
    obtain ⟨task, htask, rfl⟩ := List.mem_map.1 hmem
    exact (hquiet task htask).2
  rw [runWhile_cons] at hrun
  obtain ⟨_, mid, hstep, hrest⟩ := hrun
  cases hstep
  obtain ⟨_, _, hQ⟩ := settled_ends (M.interrupt job) hidle h hfair hrest hquiet'
  exact hQ

end EventLoop

end Effect
