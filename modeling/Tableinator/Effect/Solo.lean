import Tableinator.Effect.Cooperative

/-! # One task at a time

Runs of the event loop in which a task starts only once those before it have ended.  The
shared state then moves under a waiting task through `react` alone, so a task is verified
against that and nothing else, and what each leaves behind is what the next one finds
(`run_settled`). -/

namespace Effect

variable {S K Job Choice Env ε α β ρ : Type} {Wait : Type → Type}

/-- The discipline of a task that runs alone: it relies on what the outside keeps. -/
def aloneDiscipline (rely : S → S → Prop) : Discipline S K Choice Wait where
  inv _ := True
  rely _ := rely
  guar _ _ _ := True
  opens _ _ _ := True
  entry _ _ _ := True
  exit _ _ := True
  locks _ := True
  world _ _ := True
  admits _ _ := True
  fair _ _ _ := True

/-- What holds between two states when only the outside has acted. -/
structure Outside (rely : S → S → Prop) (react : Env → S → S) : Prop where
  refl : ∀ s, rely s s
  trans : ∀ s s₁ s₂, rely s s₁ → rely s₁ s₂ → rely s s₂
  react : ∀ env s, rely s (react env s)

namespace Routine

def Ended : Routine S K Wait ε α → Prop
  | .done _ => True
  | .raise _ => True
  | .call _ _ => False

instance (p : Routine S K Wait ε α) : Decidable p.Ended :=
  match p with
  | .done _ => .isTrue trivial
  | .raise _ => .isTrue trivial
  | .call _ _ => .isFalse id

end Routine

section

variable {M : Machine S K Job Choice Env Wait ε} {rely : S → S → Prop} {stop : Option ε}
  {Q : List K → S → Except ε α → Prop}

/-- A routine that runs on to its next wait is still on its way to `Q`. -/
theorem settle_sound {p : Routine S K Wait ε α} {held : List K} {s : S}
    (h : Sound M (aloneDiscipline rely) stop p Q held s) :
    (p.settle held s).1.AtRest ∧ Sound M (aloneDiscipline rely) stop (p.settle held s).1 Q
      (p.settle held s).2.1 (p.settle held s).2.2 := by
  induction p generalizing held s with
  | done a => exact ⟨trivial, h⟩
  | raise e => exact ⟨trivial, h⟩
  | call op k ih =>
    cases op with
    | sync f => exact ih _ h.2.2
    | enter κ test result =>
      simp only [Routine.settle]
      cases htest : test s with
      | false => exact ih _ (h.2 htest)
      | true => exact ih _ ((h.1 htest).2 trivial)
    | leave result => exact ih _ h.2
    | wait w => exact ⟨trivial, h⟩
    | acquire κ result => exact ⟨trivial, h⟩

/-- What the outside does while a routine waits leaves it on its way. -/
theorem outside_sound (hout : Outside rely M.react)
    {p : Routine S K Wait ε α} {held : List K} {s s' : S} (hrest : p.AtRest)
    (hQ : ∀ held s s' r, rely s s' → Q held s r → Q held s' r)
    (h : Sound M (aloneDiscipline rely) stop p Q held s) (hrely : rely s s') :
    Sound M (aloneDiscipline rely) stop p Q held s' := by
  cases p with
  | done a => exact hQ _ s s' _ hrely h
  | raise e => exact hQ _ s s' _ hrely h
  | call op k =>
    cases op with
    | wait w => exact fun s₁ hs₁ => h s₁ (hout.trans _ _ _ hrely hs₁)
    | acquire κ result => exact ⟨h.1, fun s₁ hs₁ => h.2 s₁ (hout.trans _ _ _ hrely hs₁)⟩
    | sync f => exact absurd hrest id
    | enter κ test result => exact absurd hrest id
    | leave result => exact absurd hrest id

end

namespace EventLoop

/-- No task is under way. -/
def Idle (l : EventLoop S K Wait ε) : Prop := ∀ task ∈ l.tasks, Routine.Ended task.program

instance (l : EventLoop S K Wait ε) : Decidable l.Idle :=
  inferInstanceAs (Decidable (∀ task ∈ l.tasks, Routine.Ended task.program))

/-- A task starts when the loop is idle, and in a state it may start from. -/
def OneByOne (starts : Job → S → Prop) (l : EventLoop S K Wait ε) : LoopEvent Job Choice Env → Prop
  | .start job => l.Idle ∧ starts job l.shared
  | _ => True

instance (starts : Job → S → Prop) [∀ job s, Decidable (starts job s)] (l : EventLoop S K Wait ε)
    (event : LoopEvent Job Choice Env) : Decidable (l.OneByOne starts event) :=
  match event with
  | .start job => inferInstanceAs (Decidable (l.Idle ∧ starts job l.shared))
  | .answer _ _ => .isTrue trivial
  | .interrupt _ => .isTrue trivial
  | .react _ => .isTrue trivial

/-- Every task but the last has ended; the last is on its way to `I`, which holds if there
    is none. -/
inductive Solo (M : Machine S K Job Choice Env Wait ε) (rely : S → S → Prop) (I : S → Prop) :
    EventLoop S K Wait ε → Prop where
  | none {s : S} (h : I s) : Solo M rely I ⟨s, []⟩
  | last {s : S} {before : List (Task S K Wait ε)} {task : Task S K Wait ε}
      (hbefore : ∀ other ∈ before, Routine.Ended other.program)
      (hrest : Routine.AtRest task.program)
      (hsound : Sound M (aloneDiscipline rely) task.interrupt task.program (fun _ s _ => I s)
        task.held s) : Solo M rely I ⟨s, before ++ [task]⟩

variable {M : Machine S K Job Choice Env Wait ε} {rely : S → S → Prop} {I : S → Prop}
  {l l' : EventLoop S K Wait ε} {starts : Job → S → Prop}

theorem Solo.idle (h : l.Solo M rely I) (hidle : l.Idle) : I l.shared := by
  cases h with
  | none h => exact h
  | @last s before task hbefore hrest hsound =>
    have hended := hidle task (by simp)
    obtain ⟨interrupt, held, program⟩ := task
    cases program with
    | done a => exact hsound
    | raise e => exact hsound
    | call op k => exact absurd hended id

/-- Only the last task can go on. -/
theorem Solo.resume {before : List (Task S K Wait ε)} {task : Task S K Wait ε} {s s' : S}
    {p : Routine S K Wait ε Unit} {held : List K}
    (hbefore : ∀ other ∈ before, Routine.Ended other.program)
    (hsound : Sound M (aloneDiscipline rely) task.interrupt p (fun _ s _ => I s) held s') :
    ((EventLoop.mk s (before ++ [task])).resume before.length task p held s').Solo M rely I := by
  obtain ⟨hrest, hsound⟩ := settle_sound hsound
  have hset : (before ++ [task]).set before.length
      ⟨task.interrupt, (p.settle held s').2.1, (p.settle held s').1⟩ =
      before ++ [⟨task.interrupt, (p.settle held s').2.1, (p.settle held s').1⟩] := by simp
  show Solo M rely I ⟨_, (before ++ [task]).set before.length _⟩
  rw [hset]
  exact .last hbefore hrest hsound

theorem index_of_unended {before : List (Task S K Wait ε)} {task other : Task S K Wait ε}
    {index : Nat} (hbefore : ∀ other ∈ before, Routine.Ended other.program)
    (hget : (before ++ [task])[index]? = some other) (hother : ¬Routine.Ended other.program) :
    index = before.length ∧ other = task := by
  by_cases hlt : index < before.length
  · rw [List.getElem?_append_left hlt] at hget
    exact absurd (hbefore other (List.mem_of_getElem? hget)) hother
  · rw [List.getElem?_append_right (Nat.le_of_not_lt hlt), List.getElem?_singleton] at hget
    split at hget
    · next hzero =>
      cases hget
      exact ⟨by omega, rfl⟩
    · cases hget

variable [DecidableEq K]

/-- A wait that ends, with an answer or an interrupt, concerns the last task. -/
theorem Solo.wake (hout : Outside rely M.react) {index : Nat} {event : LoopEvent Job Choice Env}
    (hevent : (∃ choice, event = .answer index choice) ∨ event = .interrupt index)
    (h : l.Solo M rely I) (hstep : l.step M event = some l') : l'.Solo M rely I := by
  -- an ended task has nothing to wake
  have hanswer : ∀ {task : Task S K Wait ε}, l.tasks[index]? = some task →
      ¬Routine.Ended task.program := by
    intro task hget hended
    obtain ⟨interrupt, held, program⟩ := task
    cases program with
    | call op k => exact hended
    | done a =>
      rcases hevent with ⟨choice, rfl⟩ | rfl <;>
        simp [step, hget, answerStep, interruptStep] at hstep
    | raise e =>
      rcases hevent with ⟨choice, rfl⟩ | rfl <;>
        simp [step, hget, answerStep, interruptStep] at hstep
  cases htask : l.tasks[index]? with
  | none => rcases hevent with ⟨choice, rfl⟩ | rfl <;> simp [step, htask] at hstep
  | some task =>
    have hunended := hanswer htask
    cases h with
    | none h => simp at htask
    | @last s before current hbefore hrest hsound =>
      obtain ⟨rfl, rfl⟩ := index_of_unended hbefore htask hunended
      obtain ⟨interrupt, held, program⟩ := task
      cases program with
      | done a => exact absurd trivial hunended
      | raise e => exact absurd trivial hunended
      | call op k =>
        cases op with
        | sync f => exact absurd hrest id
        | enter κ test result => exact absurd hrest id
        | leave result => exact absurd hrest id
        | wait w =>
          obtain ⟨hreply, hstop⟩ := hsound s (hout.refl s) trivial
          rcases hevent with ⟨choice, rfl⟩ | rfl
          · simp only [step, htask, Option.bind_some, answerStep, Option.map_eq_some_iff] at hstep
            obtain ⟨⟨reply, s'⟩, hperform, rfl⟩ := hstep
            exact Solo.resume hbefore (hreply choice reply s' trivial hperform).2.2
          · cases interrupt with
            | none => simp [step, interruptStep] at hstep
            | some e =>
              simp only [step, htask, Option.bind_some, interruptStep, Option.some.injEq] at hstep
              subst hstep
              exact Solo.resume hbefore (hstop e rfl)
        | acquire κ result =>
          obtain ⟨hacquire, hstop⟩ := hsound.2 s (hout.refl s) trivial
          rcases hevent with ⟨choice, rfl⟩ | rfl
          · simp only [step, htask, Option.bind_some, answerStep] at hstep
            split at hstep
            · cases hstep
            · cases hstep
              exact Solo.resume hbefore (hacquire trivial)
          · cases interrupt with
            | none => simp [step, interruptStep] at hstep
            | some e =>
              simp only [step, htask, Option.bind_some, interruptStep, Option.some.injEq] at hstep
              subst hstep
              exact Solo.resume hbefore (hstop e rfl)

theorem Solo.step (hout : Outside rely M.react) (hI : ∀ s s', rely s s' → I s → I s')
    (hjobs : ∀ job s, starts job s → I s → Sound M (aloneDiscipline rely) (M.interrupt job)
      (M.program job) (fun _ s _ => I s) [] s)
    (h : l.Solo M rely I) {event : LoopEvent Job Choice Env} (hok : l.OneByOne starts event)
    (hstep : l.step M event = some l') : l'.Solo M rely I := by
  cases event with
  | answer index choice => exact h.wake hout (.inl ⟨choice, rfl⟩) hstep
  | interrupt index => exact h.wake hout (.inr rfl) hstep
  | start job =>
    obtain ⟨hidle, hstarts⟩ := hok
    obtain ⟨hrest, hsound⟩ := settle_sound (hjobs job l.shared hstarts (h.idle hidle))
    cases hstep
    exact .last hidle hrest hsound
  | react env =>
    cases hstep
    cases h with
    | none h => exact .none (hI _ _ (hout.react env _) h)
    | last hbefore hrest hsound =>
      exact .last hbefore hrest (outside_sound hout hrest (fun _ s s' _ => hI s s') hsound
        (hout.react env _))

/-- Tasks that each lead from `I` to `I` alone leave `I` whenever the loop is idle. -/
theorem run_settled (hout : Outside rely M.react) (hI : ∀ s s', rely s s' → I s → I s')
    (hjobs : ∀ job s, starts job s → I s → Sound M (aloneDiscipline rely) (M.interrupt job)
      (M.program job) (fun _ s _ => I s) [] s)
    (h : l.Solo M rely I) (hrun : Run M (OneByOne starts) l l') : l'.Solo M rely I := by
  induction hrun with
  | refl => exact h
  | tail _ hstep ih =>
    obtain ⟨event, hok, hstep⟩ := hstep
    exact ih.step hout hI hjobs hok hstep

end EventLoop

end Effect
