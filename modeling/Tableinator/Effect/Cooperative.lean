import Tableinator.Effect.Program
import Mathlib.Logic.Function.Basic
import Mathlib.Logic.Relation

/-! # Cooperative tasks

The tasks of one event loop.  A task runs alone from one wait to the next, so only the
waits can be interleaved; between two waits it may enter and leave named sections, and a
lock is a section that one task is in at a time.  Tasks are verified one by one, against
what the others may do while they wait (`rely`) and for what they do themselves in the
sections they are in (`guar`); `run_kept` puts them together. -/

namespace Effect

/-- What a task does: a synchronous step on the shared state, the entry of a section if
    a test holds, the end of the latest section, a wait, or the wait for a lock. -/
inductive TaskOp (S K : Type) (Wait : Type → Type) (ρ : Type) : Type where
  | sync (f : S → ρ × S)
  | enter (κ : K) (test : S → Bool) (result : Bool → ρ)
  | leave (result : ρ)
  | wait (w : Wait ρ)
  | acquire (κ : K) (result : ρ)

abbrev Routine (S K : Type) (Wait : Type → Type) (ε α : Type) := Program (TaskOp S K Wait) ε α

/-- A task: what can be thrown into it, the sections it is in, the latest first, and the
    rest of its program. -/
structure Task (S K : Type) (Wait : Type → Type) (ε : Type) : Type 1 where
  interrupt : Option ε
  held : List K
  program : Routine S K Wait ε Unit

structure EventLoop (S K : Type) (Wait : Type → Type) (ε : Type) : Type 1 where
  shared : S
  tasks : List (Task S K Wait ε)

/-- The programs that can be started, the answers to a wait, and what changes the shared
    state from outside. -/
structure Machine (S K Job Choice Env : Type) (Wait : Type → Type) (ε : Type) : Type 1 where
  program : Job → Routine S K Wait ε Unit
  interrupt : Job → Option ε
  perform : Choice → S → {ρ : Type} → Wait ρ → Option (Except ε ρ × S)
  react : Env → S → S

inductive LoopEvent (Job Choice Env : Type) where
  | start (job : Job)
  | answer (index : Nat) (choice : Choice)
  | interrupt (index : Nat)
  | react (env : Env)

variable {S K Job Choice Env ε α β ρ : Type} {Wait : Type → Type}

namespace Routine

open Program

def read (f : S → ρ) : Routine S K Wait ε ρ := await (.sync fun s => (f s, s))

def write (f : S → S) : Routine S K Wait ε Unit := await (.sync fun s => ((), f s))

def wait (w : Wait ρ) : Routine S K Wait ε ρ := await (.wait w)

def enter (κ : K) (test : S → Bool) : Routine S K Wait ε Bool := await (.enter κ test id)

def leave : Routine S K Wait ε Unit := await (.leave ())

def acquire (κ : K) : Routine S K Wait ε Unit := await (.acquire κ ())

/-- Runs the routine to its next wait. -/
def settle : Routine S K Wait ε α → List K → S → Routine S K Wait ε α × List K × S
  | .call (.sync f) k, held, s => settle (k (.ok (f s).1)) held (f s).2
  | .call (.enter κ test result) k, held, s =>
    if test s then settle (k (.ok (result true))) (κ :: held) s
    else settle (k (.ok (result false))) held s
  | .call (.leave result) k, held, s => settle (k (.ok result)) held.tail s
  | p, held, s => (p, held, s)

/-- Every section the routine enters before its next wait satisfies `ok`. -/
def Enters (ok : K → Prop) : Routine S K Wait ε α → S → Prop
  | .call (.sync f) k, s => Enters ok (k (.ok (f s).1)) (f s).2
  | .call (.enter κ test result) k, s =>
    if test s then ok κ ∧ Enters ok (k (.ok (result true))) s
    else Enters ok (k (.ok (result false))) s
  | .call (.leave result) k, s => Enters ok (k (.ok result)) s
  | _, _ => True

def decidableEnters (ok : K → Prop) [DecidablePred ok] :
    (p : Routine S K Wait ε α) → (s : S) → Decidable (Enters ok p s)
  | .call (.sync f) k, s => decidableEnters ok (k (.ok (f s).1)) (f s).2
  | .call (.enter κ test result) k, s =>
    have := decidableEnters ok (k (.ok (result true))) s
    have := decidableEnters ok (k (.ok (result false))) s
    inferInstanceAs (Decidable (if test s then ok κ ∧ Enters ok (k (.ok (result true))) s
      else Enters ok (k (.ok (result false))) s))
  | .call (.leave result) k, s => decidableEnters ok (k (.ok result)) s
  | .call (.wait _) _, _ => .isTrue trivial
  | .call (.acquire _ _) _, _ => .isTrue trivial
  | .done _, _ => .isTrue trivial
  | .raise _, _ => .isTrue trivial

instance (ok : K → Prop) [DecidablePred ok] (p : Routine S K Wait ε α) (s : S) :
    Decidable (Enters ok p s) := decidableEnters ok p s

/-- A routine that waits, or has ended. -/
def AtRest : Routine S K Wait ε α → Prop
  | .call (.wait _) _ => True
  | .call (.acquire _ _) _ => True
  | .call _ _ => False
  | _ => True

end Routine

/-! ## The loop -/

namespace EventLoop

variable (M : Machine S K Job Choice Env Wait ε)

/-- The sections of the other tasks. -/
def others (l : EventLoop S K Wait ε) (index : Nat) : List (List K) :=
  (l.tasks.eraseIdx index).map Task.held

/-- Lets a task go on to its next wait. -/
def resume (l : EventLoop S K Wait ε) (index : Nat) (task : Task S K Wait ε)
    (program : Routine S K Wait ε Unit) (held : List K) (s : S) : EventLoop S K Wait ε :=
  let (program, held, s) := program.settle held s
  ⟨s, l.tasks.set index ⟨task.interrupt, held, program⟩⟩

def answerStep [DecidableEq K] (l : EventLoop S K Wait ε) (index : Nat) (choice : Choice)
    (task : Task S K Wait ε) : Option (EventLoop S K Wait ε) :=
  match task.program with
  | .call (.wait w) k =>
    (M.perform choice l.shared w).map fun (reply, s) => l.resume index task (k reply) task.held s
  | .call (.acquire κ result) k =>
    if ∃ held ∈ l.others index, κ ∈ held then none
    else some (l.resume index task (k (.ok result)) (κ :: task.held) l.shared)
  | _ => none

def interruptStep (l : EventLoop S K Wait ε) (index : Nat) (task : Task S K Wait ε) :
    Option (EventLoop S K Wait ε) :=
  match task.program, task.interrupt with
  | .call (.wait _) k, some e => some (l.resume index task (k (.error e)) task.held l.shared)
  | .call (.acquire _ _) k, some e => some (l.resume index task (k (.error e)) task.held l.shared)
  | _, _ => none

def step [DecidableEq K] (l : EventLoop S K Wait ε) :
    LoopEvent Job Choice Env → Option (EventLoop S K Wait ε)
  | .start job =>
    let (program, held, s) := (M.program job).settle [] l.shared
    some ⟨s, l.tasks ++ [⟨M.interrupt job, held, program⟩]⟩
  | .answer index choice => (l.tasks[index]?).bind (l.answerStep M index choice)
  | .interrupt index => (l.tasks[index]?).bind (l.interruptStep index)
  | .react env => some { l with shared := M.react env l.shared }

/-- The runs whose events all meet a condition on the state before them. -/
abbrev Run [DecidableEq K] (ok : EventLoop S K Wait ε → LoopEvent Job Choice Env → Prop) :
    EventLoop S K Wait ε → EventLoop S K Wait ε → Prop :=
  RunOf (step M) ok

/-- A wait gets a `fair` answer, and the task then enters only sections that are `ok`. -/
def AdmitsAnswer (ok : K → Prop) (fair : Choice → {ρ : Type} → Wait ρ → Prop) (choice : Choice)
    (s : S) : Routine S K Wait ε Unit → Prop
  | .call (.wait w) k => fair choice w ∧ ∀ outcome ∈ M.perform choice s w,
      Routine.Enters ok (k outcome.1) outcome.2
  | .call (.acquire κ result) k => ok κ ∧ Routine.Enters ok (k (.ok result)) s
  | _ => True

def AdmitsInterrupt (ok : K → Prop) (e : ε) (s : S) : Routine S K Wait ε Unit → Prop
  | .call (.wait _) k => Routine.Enters ok (k (.error e)) s
  | .call (.acquire _ _) k => Routine.Enters ok (k (.error e)) s
  | _ => True

/-- A task enters only sections that `admits` allows beside those of the others, and a
    wait gets only answers that are `fair`. -/
def Admits (admits : K → List (List K) → Prop) (fair : Choice → {ρ : Type} → Wait ρ → Prop)
    (l : EventLoop S K Wait ε) : LoopEvent Job Choice Env → Prop
  | .start job => Routine.Enters (admits · (l.tasks.map Task.held)) (M.program job) l.shared
  | .answer index choice => ∀ task ∈ l.tasks[index]?,
      AdmitsAnswer M (admits · (l.others index)) fair choice l.shared task.program
  | .interrupt index => ∀ task ∈ l.tasks[index]?, ∀ e ∈ task.interrupt,
      AdmitsInterrupt (admits · (l.others index)) e l.shared task.program
  | .react _ => True

section

variable (ok : K → Prop) [DecidablePred ok] (fair : Choice → {ρ : Type} → Wait ρ → Prop)
  [∀ choice {ρ : Type} (w : Wait ρ), Decidable (fair choice w)]

instance (choice : Choice) (s : S) (p : Routine S K Wait ε Unit) :
    Decidable (AdmitsAnswer M ok fair choice s p) :=
  match p with
  | .call (.wait w) k => inferInstanceAs (Decidable (fair choice w ∧
      ∀ outcome ∈ M.perform choice s w, Routine.Enters ok (k outcome.1) outcome.2))
  | .call (.acquire κ result) k =>
    inferInstanceAs (Decidable (ok κ ∧ Routine.Enters ok (k (.ok result)) s))
  | .call (.sync _) _ => .isTrue trivial
  | .call (.enter _ _ _) _ => .isTrue trivial
  | .call (.leave _) _ => .isTrue trivial
  | .done _ => .isTrue trivial
  | .raise _ => .isTrue trivial

instance (e : ε) (s : S) (p : Routine S K Wait ε Unit) : Decidable (AdmitsInterrupt ok e s p) :=
  match p with
  | .call (.wait _) k => inferInstanceAs (Decidable (Routine.Enters ok (k (.error e)) s))
  | .call (.acquire _ _) k => inferInstanceAs (Decidable (Routine.Enters ok (k (.error e)) s))
  | .call (.sync _) _ => .isTrue trivial
  | .call (.enter _ _ _) _ => .isTrue trivial
  | .call (.leave _) _ => .isTrue trivial
  | .done _ => .isTrue trivial
  | .raise _ => .isTrue trivial

instance (admits : K → List (List K) → Prop) [∀ κ others, Decidable (admits κ others)]
    (l : EventLoop S K Wait ε) (event : LoopEvent Job Choice Env) :
    Decidable (l.Admits M admits fair event) :=
  match event with
  | .start job => inferInstanceAs
      (Decidable (Routine.Enters (admits · (l.tasks.map Task.held)) (M.program job) l.shared))
  | .answer index choice => inferInstanceAs (Decidable (∀ task ∈ l.tasks[index]?,
      AdmitsAnswer M (admits · (l.others index)) fair choice l.shared task.program))
  | .interrupt index => inferInstanceAs (Decidable (∀ task ∈ l.tasks[index]?, ∀ e ∈ task.interrupt,
      AdmitsInterrupt (admits · (l.others index)) e l.shared task.program))
  | .react _ => .isTrue trivial

end

end EventLoop

/-! ## Disciplines -/

/-- How tasks that share a state get along.  `held` is the list of sections a task is in,
    and `world` relates the sections of all tasks to the state. -/
structure Discipline (S K Choice : Type) (Wait : Type → Type) where
  inv : S → Prop
  /-- What the others may do while a task waits. -/
  rely : List K → S → S → Prop
  /-- What a step of a task does. -/
  guar : List K → S → S → Prop
  /-- What a task has to show to enter a section, what it may then assume, and what it
      has to show to leave. -/
  opens : K → List K → S → Prop
  entry : K → List K → S → Prop
  exit : List K → S → Prop
  /-- The sections that are locks. -/
  locks : K → Prop
  world : (Nat → List K) → S → Prop
  /-- What is asked of a run. -/
  admits : K → List (List K) → Prop
  fair : Choice → {ρ : Type} → Wait ρ → Prop

/-- `held` lists the sections of all tasks but one. -/
def Beside (σ : Nat → List K) (index : Nat) (held : List (List K)) : Prop :=
  ∀ j, j ≠ index → σ j = [] ∨ σ j ∈ held

structure Discipline.Lawful (D : Discipline S K Choice Wait) (react : Env → S → S) : Prop where
  rely_refl : ∀ held s, D.rely held s s
  rely_trans : ∀ held s s₁ s₂, D.rely held s s₁ → D.rely held s₁ s₂ → D.rely held s s₂
  rely_of_guar : ∀ σ i j s s', D.inv s → D.inv s' → D.world σ s → i ≠ j →
    D.guar (σ i) s s' → D.rely (σ j) s s'
  world_of_guar : ∀ σ i s s', D.inv s → D.inv s' → D.world σ s → D.guar (σ i) s s' → D.world σ s'
  enter : ∀ σ i κ others s, D.inv s → D.world σ s → Beside σ i others → D.admits κ others →
    D.opens κ (σ i) s → D.entry κ (σ i) s ∧ D.world (Function.update σ i (κ :: σ i)) s
  /-- A lock is free when its holder enters. -/
  acquire : ∀ σ i κ others s, D.inv s → D.world σ s → Beside σ i others → D.admits κ others →
    D.locks κ → (∀ j, j ≠ i → κ ∉ σ j) → D.entry κ (σ i) s ∧ D.world (Function.update σ i (κ :: σ i)) s
  leave : ∀ σ i s, D.inv s → D.world σ s → D.exit (σ i) s →
    D.world (Function.update σ i (σ i).tail) s
  inv_react : ∀ env s, D.inv s → D.inv (react env s)
  world_react : ∀ σ env s, D.inv s → D.world σ s → D.world σ (react env s)
  rely_react : ∀ held env s, D.inv s → D.rely held s (react env s)

section

variable (M : Machine S K Job Choice Env Wait ε) (D : Discipline S K Choice Wait) (stop : Option ε)

/-- The routine keeps the discipline, and ends in `Q`. -/
def Sound : Routine S K Wait ε α → (List K → S → Except ε α → Prop) → List K → S → Prop
  | .done a, Q, held, s => Q held s (.ok a)
  | .raise e, Q, held, s => Q held s (.error e)
  | .call (.sync f) k, Q, held, s =>
    D.inv (f s).2 ∧ D.guar held s (f s).2 ∧ Sound (k (.ok (f s).1)) Q held (f s).2
  | .call (.enter κ test result) k, Q, held, s =>
    (test s = true → D.opens κ held s ∧
      (D.entry κ held s → Sound (k (.ok (result true))) Q (κ :: held) s)) ∧
    (test s = false → Sound (k (.ok (result false))) Q held s)
  | .call (.leave result) k, Q, held, s =>
    D.exit held s ∧ Sound (k (.ok result)) Q held.tail s
  | .call (.wait w) k, Q, held, s => ∀ s₁, D.rely held s s₁ → D.inv s₁ →
    (∀ choice reply s₂, D.fair choice w → M.perform choice s₁ w = some (reply, s₂) →
      D.inv s₂ ∧ D.guar held s₁ s₂ ∧ Sound (k reply) Q held s₂) ∧
    ∀ e ∈ stop, Sound (k (.error e)) Q held s₁
  | .call (.acquire κ result) k, Q, held, s => D.locks κ ∧ ∀ s₁, D.rely held s s₁ → D.inv s₁ →
    (D.entry κ held s₁ → Sound (k (.ok result)) Q (κ :: held) s₁) ∧
    ∀ e ∈ stop, Sound (k (.error e)) Q held s₁

variable {M D stop}

/-! ### Rules -/

@[simp] theorem sound_pure (a : α) (Q : List K → S → Except ε α → Prop) (held : List K) (s : S) :
    Sound M D stop (pure a) Q held s ↔ Q held s (.ok a) := Iff.rfl

@[simp] theorem sound_raise (e : ε) (Q : List K → S → Except ε α → Prop) (held : List K) (s : S) :
    Sound M D stop (.raise e) Q held s ↔ Q held s (.error e) := Iff.rfl

theorem sound_follow {p : Routine S K Wait ε α} {f : Except ε α → Routine S K Wait ε β}
    {Q : List K → S → Except ε β → Prop} {held : List K} {s : S}
    (h : Sound M D stop p (fun held s r => Sound M D stop (f r) Q held s) held s) :
    Sound M D stop (p.follow f) Q held s := by
  induction p generalizing held s with
  | done a => exact h
  | raise e => exact h
  | call op k ih =>
    cases op with
    | sync g => exact ⟨h.1, h.2.1, ih _ h.2.2⟩
    | enter κ test result =>
      exact ⟨fun ht => ⟨(h.1 ht).1, fun he => ih _ ((h.1 ht).2 he)⟩, fun ht => ih _ (h.2 ht)⟩
    | leave result => exact ⟨h.1, ih _ h.2⟩
    | wait w =>
      intro s₁ hrely hinv
      obtain ⟨hanswer, hstop⟩ := h s₁ hrely hinv
      refine ⟨fun choice reply s₂ hfair hperform => ?_, fun e he => ih _ (hstop e he)⟩
      obtain ⟨hinv₂, hguar, hrest⟩ := hanswer choice reply s₂ hfair hperform
      exact ⟨hinv₂, hguar, ih _ hrest⟩
    | acquire κ result =>
      refine ⟨h.1, fun s₁ hrely hinv => ?_⟩
      obtain ⟨hentry, hstop⟩ := h.2 s₁ hrely hinv
      exact ⟨fun he => ih _ (hentry he), fun e he => ih _ (hstop e he)⟩

theorem sound_mono {p : Routine S K Wait ε α} {Q Q' : List K → S → Except ε α → Prop}
    {held : List K} {s : S} (h : Sound M D stop p Q held s)
    (himp : ∀ held s r, Q held s r → Q' held s r) : Sound M D stop p Q' held s := by
  induction p generalizing held s with
  | done a => exact himp _ _ _ h
  | raise e => exact himp _ _ _ h
  | call op k ih =>
    cases op with
    | sync g => exact ⟨h.1, h.2.1, ih _ h.2.2⟩
    | enter κ test result =>
      exact ⟨fun ht => ⟨(h.1 ht).1, fun he => ih _ ((h.1 ht).2 he)⟩, fun ht => ih _ (h.2 ht)⟩
    | leave result => exact ⟨h.1, ih _ h.2⟩
    | wait w =>
      intro s₁ hrely hinv
      obtain ⟨hanswer, hstop⟩ := h s₁ hrely hinv
      refine ⟨fun choice reply s₂ hfair hperform => ?_, fun e he => ih _ (hstop e he)⟩
      obtain ⟨hinv₂, hguar, hrest⟩ := hanswer choice reply s₂ hfair hperform
      exact ⟨hinv₂, hguar, ih _ hrest⟩
    | acquire κ result =>
      refine ⟨h.1, fun s₁ hrely hinv => ?_⟩
      obtain ⟨hentry, hstop⟩ := h.2 s₁ hrely hinv
      exact ⟨fun he => ih _ (hentry he), fun e he => ih _ (hstop e he)⟩

theorem sound_bind {p : Routine S K Wait ε α} {f : α → Routine S K Wait ε β}
    {Q : List K → S → Except ε β → Prop} {held : List K} {s : S}
    (h : Sound M D stop p (fun held s r => match r with
      | .ok a => Sound M D stop (f a) Q held s
      | .error e => Q held s (.error e)) held s) : Sound M D stop (p >>= f) Q held s := by
  show Sound M D stop (p.bind f) Q held s
  rw [Program.bind_eq_follow]
  refine sound_follow (sound_mono h ?_)
  intro held s r hr
  cases r with
  | ok a => exact hr
  | error e => exact hr

theorem sound_tryCatch {p : Routine S K Wait ε α} {handler : ε → Routine S K Wait ε α}
    {Q : List K → S → Except ε α → Prop} {held : List K} {s : S}
    (h : Sound M D stop p (fun held s r => match r with
      | .ok a => Q held s (.ok a)
      | .error e => Sound M D stop (handler e) Q held s) held s) :
    Sound M D stop (p.tryCatch handler) Q held s := by
  rw [Program.tryCatch_eq_follow]
  refine sound_follow (sound_mono h ?_)
  intro held s r hr
  cases r with
  | ok a => exact hr
  | error e => exact hr

theorem sound_ensuring {p : Routine S K Wait ε α} {last : Routine S K Wait ε Unit}
    {Q : List K → S → Except ε α → Prop} {held : List K} {s : S}
    (h : Sound M D stop p (fun held s r => Sound M D stop last (fun held s r' => match r' with
      | .ok _ => Q held s r
      | .error e => Q held s (.error e)) held s) held s) :
    Sound M D stop (p.ensuring last) Q held s := by
  refine sound_follow (sound_mono h ?_)
  intro held s r hr
  cases r with
  | ok a => exact sound_bind (sound_mono hr fun _ _ last hlast => by cases last <;> exact hlast)
  | error e => exact sound_bind (sound_mono hr fun _ _ last hlast => by cases last <;> exact hlast)

theorem sound_write {f : S → S} {Q : List K → S → Except ε Unit → Prop} {held : List K} {s : S}
    (hinv : D.inv (f s)) (hguar : D.guar held s (f s)) (h : Q held (f s) (.ok ())) :
    Sound M D stop (Routine.write f) Q held s :=
  ⟨hinv, hguar, h⟩

/-! ### Triples -/

variable (M D stop) in
/-- From `P` the routine ends with `Q`, in the sections it started in. -/
def Triple (held : List K) (P : S → Prop) (p : Routine S K Wait ε α) (Q : Except ε α → S → Prop) :
    Prop :=
  ∀ s, P s → Sound M D stop p (fun held' s' r => held' = held ∧ Q r s') held s

section

variable {held : List K} {P P' : S → Prop} {p : Routine S K Wait ε α} {Q Q' : Except ε α → S → Prop}
  {R : Except ε β → S → Prop}

theorem triple_pure {a : α} (h : ∀ s, P s → Q (.ok a) s) : Triple M D stop held P (pure a) Q :=
  fun s hP => ⟨rfl, h s hP⟩

theorem triple_raise {e : ε} (h : ∀ s, P s → Q (.error e) s) :
    Triple M D stop held P (.raise e) Q :=
  fun s hP => ⟨rfl, h s hP⟩

theorem Triple.mono (h : Triple M D stop held P p Q) (hP : ∀ s, P' s → P s)
    (hQ : ∀ r s, Q r s → Q' r s) : Triple M D stop held P' p Q' :=
  fun s hs => sound_mono (h s (hP s hs)) fun _ s' r hr => ⟨hr.1, hQ r s' hr.2⟩

theorem triple_bind {f : α → Routine S K Wait ε β} (hp : Triple M D stop held P p Q)
    (hf : ∀ a, Triple M D stop held (Q (.ok a)) (f a) R)
    (herror : ∀ e s, Q (.error e) s → R (.error e) s) : Triple M D stop held P (p >>= f) R := by
  intro s hP
  refine sound_bind (sound_mono (hp s hP) ?_)
  intro held' s' r h
  obtain ⟨rfl, hQ⟩ := h
  cases r with
  | ok a => exact hf a s' hQ
  | error e => exact ⟨rfl, herror e s' hQ⟩

theorem triple_tryCatch {handler : ε → Routine S K Wait ε α} (hp : Triple M D stop held P p Q)
    (hok : ∀ a s, Q (.ok a) s → Q' (.ok a) s)
    (hhandler : ∀ e, Triple M D stop held (Q (.error e)) (handler e) Q') :
    Triple M D stop held P (p.tryCatch handler) Q' := by
  intro s hP
  refine sound_tryCatch (sound_mono (hp s hP) ?_)
  intro held' s' r h
  obtain ⟨rfl, hQ⟩ := h
  cases r with
  | ok a => exact ⟨rfl, hok a s' hQ⟩
  | error e => exact hhandler e s' hQ

theorem triple_read_bind {f : S → ρ} {g : ρ → Routine S K Wait ε β}
    (h : ∀ s, P s → D.inv s ∧ D.guar held s s)
    (hg : ∀ a, Triple M D stop held (fun s => P s ∧ f s = a) (g a) R) :
    Triple M D stop held P (Routine.read f >>= g) R := by
  intro s hP
  exact sound_bind ⟨(h s hP).1, (h s hP).2, hg (f s) s ⟨hP, rfl⟩⟩

theorem triple_write {f : S → S} {Q : Except ε Unit → S → Prop}
    (h : ∀ s, P s → D.inv (f s) ∧ D.guar held s (f s) ∧ Q (.ok ()) (f s)) :
    Triple M D stop held P (Routine.write f) Q := by
  intro s hP
  obtain ⟨hinv, hguar, hQ⟩ := h s hP
  exact ⟨hinv, hguar, rfl, hQ⟩

theorem triple_write_bind {f : S → S} {g : Unit → Routine S K Wait ε β}
    (h : ∀ s, P s → D.inv (f s) ∧ D.guar held s (f s) ∧ P' (f s))
    (hg : Triple M D stop held P' (g ()) R) : Triple M D stop held P (Routine.write f >>= g) R := by
  intro s hP
  obtain ⟨hinv, hguar, hP'⟩ := h s hP
  exact sound_bind ⟨hinv, hguar, hg _ hP'⟩

theorem triple_wait {w : Wait ρ} {Q : Except ε ρ → S → Prop}
    (hrely : ∀ s s', P s → D.rely held s s' → D.inv s' → P s')
    (hanswer : ∀ choice s reply s', P s → D.inv s → D.fair choice w →
      M.perform choice s w = some (reply, s') → D.inv s' ∧ D.guar held s s' ∧ Q reply s')
    (hstop : ∀ e ∈ stop, ∀ s, P s → Q (.error e) s) :
    Triple M D stop held P (Routine.wait w) Q := by
  intro s hP s₁ hothers hinv
  have hP₁ := hrely s s₁ hP hothers hinv
  refine ⟨fun choice reply s₂ hfair hperform => ?_, fun e he => ⟨rfl, hstop e he s₁ hP₁⟩⟩
  obtain ⟨hinv₂, hguar, hQ⟩ := hanswer choice s₁ reply s₂ hP₁ hinv hfair hperform
  refine ⟨hinv₂, hguar, ?_⟩
  cases reply with
  | ok a => exact ⟨rfl, hQ⟩
  | error e => exact ⟨rfl, hQ⟩

/-- A body at whose end the latest section ends. -/
theorem Triple.leaving {κ : K} (h : Triple M D stop (κ :: held) P p Q)
    (hexit : ∀ r s, Q r s → D.exit (κ :: held) s) {s : S} (hP : P s) :
    Sound M D stop (p.ensuring Routine.leave) (fun held' s' r => held' = held ∧ Q r s')
      (κ :: held) s := by
  refine sound_ensuring (sound_mono (h s hP) ?_)
  intro held' s' r hr
  obtain ⟨rfl, hQ⟩ := hr
  exact ⟨hexit r s' hQ, rfl, hQ⟩

end

/-! ### Routines without sections -/

/-- The synchronous steps are all a `change`, and the waits all a `request`. -/
def TaskOp.Within (change : S → S → Prop) (request : ∀ {ρ : Type}, Wait ρ → Prop) {ρ : Type} :
    TaskOp S K Wait ρ → Prop
  | .sync f => ∀ s, change s (f s).2
  | .wait w => request w
  | _ => False

section

variable {change : S → S → Prop} {request : ∀ {ρ : Type}, Wait ρ → Prop}

theorem only_read (h : ∀ s, change s s) (f : S → ρ) :
    Program.Only (TaskOp.Within change request) (Routine.read f : Routine S K Wait ε ρ) :=
  Program.only_await h

theorem only_write {f : S → S} (h : ∀ s, change s (f s)) :
    Program.Only (TaskOp.Within change request) (Routine.write f : Routine S K Wait ε Unit) :=
  Program.only_await h

theorem only_wait {w : Wait ρ} (h : request w) :
    Program.Only (TaskOp.Within change request) (Routine.wait w : Routine S K Wait ε ρ) :=
  Program.only_await h

/-- A routine that only changes and requests keeps an assertion that these keep, and that
    the others keep. -/
theorem triple_of_within {I : S → Prop} {held : List K}
    (hchange : ∀ s s', I s → change s s' → D.inv s' ∧ D.guar held s s' ∧ I s')
    (hrely : ∀ s s', I s → D.rely held s s' → D.inv s' → I s')
    (hanswer : ∀ {ρ : Type} (w : Wait ρ) choice s reply s', request w → I s → D.fair choice w →
      M.perform choice s w = some (reply, s') → D.inv s' ∧ D.guar held s s' ∧ I s')
    {p : Routine S K Wait ε α} (hp : p.Only (TaskOp.Within change request)) :
    Triple M D stop held I p fun _ => I := by
  intro s hI
  induction p generalizing s with
  | done a => exact ⟨rfl, hI⟩
  | raise e => exact ⟨rfl, hI⟩
  | call op k ih =>
    obtain ⟨hop, hrest⟩ := hp
    cases op with
    | sync f =>
      obtain ⟨hinv, hguar, hI'⟩ := hchange s _ hI (hop s)
      exact ⟨hinv, hguar, ih _ (hrest _) _ hI'⟩
    | enter κ test result => exact absurd hop id
    | leave result => exact absurd hop id
    | acquire κ result => exact absurd hop id
    | wait w =>
      intro s₁ hothers hinv₁
      have hI₁ := hrely s s₁ hI hothers hinv₁
      refine ⟨fun choice reply s₂ hfair hperform => ?_, fun e _ => ih _ (hrest _) _ hI₁⟩
      obtain ⟨hinv₂, hguar, hI₂⟩ := hanswer w choice s₁ reply s₂ hop hI₁ hfair hperform
      exact ⟨hinv₂, hguar, ih _ (hrest _) _ hI₂⟩

end

/-! ### Waiting -/

section

variable {react : Env → S → S}

/-- What a waiting routine relies on, the others keep. -/
theorem Sound.wait (hlaw : D.Lawful react) {p : Routine S K Wait ε α}
    {Q : List K → S → Except ε α → Prop} {held : List K} {s s' : S} (hrest : p.AtRest)
    (hdone : ∀ s s' r, D.rely held s s' → Q held s r → Q held s' r)
    (h : Sound M D stop p Q held s) (hrely : D.rely held s s') : Sound M D stop p Q held s' := by
  cases p with
  | done a => exact hdone s s' _ hrely h
  | raise e => exact hdone s s' _ hrely h
  | call op k =>
    cases op with
    | sync g => exact absurd hrest id
    | enter κ test result => exact absurd hrest id
    | leave result => exact absurd hrest id
    | wait w => exact fun s₁ hs₁ => h s₁ (hlaw.rely_trans _ _ _ _ hrely hs₁)
    | acquire κ result => exact ⟨h.1, fun s₁ hs₁ => h.2 s₁ (hlaw.rely_trans _ _ _ _ hrely hs₁)⟩

/-- What a routine does up to its next wait. -/
structure Settled (M : Machine S K Job Choice Env Wait ε) (D : Discipline S K Choice Wait)
    (stop : Option ε) (Q : List K → S → Except ε α → Prop) (σ : Nat → List K) (i : Nat) (s : S)
    (out : Routine S K Wait ε α × List K × S) : Prop where
  atRest : out.1.AtRest
  sound : Sound M D stop out.1 Q out.2.1 out.2.2
  inv : D.inv out.2.2
  world : D.world (Function.update σ i out.2.1) out.2.2
  rely : ∀ j, j ≠ i → D.rely (σ j) s out.2.2

theorem Settled.rest (hlaw : D.Lawful react) {p : Routine S K Wait ε α}
    {Q : List K → S → Except ε α → Prop} {σ : Nat → List K} {i : Nat} {s : S} (hrest : p.AtRest)
    (hsound : Sound M D stop p Q (σ i) s) (hinv : D.inv s) (hworld : D.world σ s) :
    Settled M D stop Q σ i s (p, σ i, s) where
  atRest := hrest
  sound := hsound
  inv := hinv
  world := by rwa [Function.update_eq_self]
  rely _ _ := hlaw.rely_refl _ _

/-- A step before the rest of the way. -/
theorem Settled.head (hlaw : D.Lawful react) {Q : List K → S → Except ε α → Prop}
    {σ : Nat → List K} {i : Nat} {held : List K} {s s₁ : S}
    {out : Routine S K Wait ε α × List K × S} (hstep : ∀ j, j ≠ i → D.rely (σ j) s s₁)
    (h : Settled M D stop Q (Function.update σ i held) i s₁ out) : Settled M D stop Q σ i s out where
  atRest := h.atRest
  sound := h.sound
  inv := h.inv
  world := by
    have hworld := h.world
    rwa [Function.update_idem] at hworld
  rely j hj := by
    have hrest := h.rely j hj
    rw [Function.update_of_ne hj] at hrest
    exact hlaw.rely_trans _ _ _ _ (hstep j hj) hrest

theorem settle_settled (hlaw : D.Lawful react) {p : Routine S K Wait ε α}
    {Q : List K → S → Except ε α → Prop} {σ : Nat → List K} {i : Nat} {held : List K} {s : S}
    {others : List (List K)} (hbeside : Beside σ i others) (hheld : σ i = held)
    (hsound : Sound M D stop p Q held s) (hinv : D.inv s) (hworld : D.world σ s)
    (henters : p.Enters (D.admits · others) s) :
    Settled M D stop Q σ i s (p.settle held s) := by
  have hstay : ∀ (σ : Nat → List K) s j, j ≠ i → D.rely (σ j) s s :=
    fun σ s j _ => hlaw.rely_refl _ _
  have hbeside' : ∀ {σ : Nat → List K} held, Beside σ i others →
      Beside (Function.update σ i held) i others := by
    intro σ held hbeside j hj
    rw [Function.update_of_ne hj]
    exact hbeside j hj
  -- on the program: all of it up to the next wait runs as one step
  induction p generalizing σ held s with
  | done a =>
    subst hheld
    exact .rest hlaw trivial hsound hinv hworld
  | raise e =>
    subst hheld
    exact .rest hlaw trivial hsound hinv hworld
  | call op k ih =>
    subst hheld
    cases op with
    | sync f =>
      obtain ⟨hinv₁, hguar, hrest⟩ := hsound
      have hworld₁ := hlaw.world_of_guar σ i s _ hinv hinv₁ hworld hguar
      -- the others may rely on what this task guarantees
      have hrely : ∀ j, j ≠ i → D.rely (σ j) s (f s).2 :=
        fun j hj => hlaw.rely_of_guar σ i j s _ hinv hinv₁ hworld hj.symm hguar
      have hsettled := ih _ (hbeside' (σ i) hbeside) (Function.update_self i _ σ) hrest hinv₁
        (by rwa [Function.update_eq_self]) henters
      exact hsettled.head hlaw hrely
    | enter κ test result =>
      simp only [Routine.Enters, Routine.settle] at henters ⊢
      cases htest : test s with
      | false =>
        simp only [htest, Bool.false_eq_true, if_false] at henters ⊢
        exact ih _ hbeside rfl (hsound.2 htest) hinv hworld henters
      | true =>
        simp only [htest, if_true] at henters ⊢
        obtain ⟨hopens, hrest⟩ := hsound.1 htest
        obtain ⟨hentry, hworld₁⟩ := hlaw.enter σ i κ others s hinv hworld hbeside henters.1 hopens
        have hsettled := ih _ (hbeside' (κ :: σ i) hbeside) (Function.update_self i _ σ)
          (hrest hentry) hinv hworld₁ henters.2
        exact hsettled.head hlaw (hstay σ s)
    | leave result =>
      obtain ⟨hexit, hrest⟩ := hsound
      have hworld₁ := hlaw.leave σ i s hinv hworld hexit
      have hsettled := ih _ (hbeside' (σ i).tail hbeside) (Function.update_self i _ σ) hrest hinv
        hworld₁ henters
      exact hsettled.head hlaw (hstay σ s)
    | wait w => exact .rest hlaw trivial hsound hinv hworld
    | acquire κ result => exact .rest hlaw trivial hsound hinv hworld

end

end

/-! ## Runs -/

namespace EventLoop

variable {l l' : EventLoop S K Wait ε} {index : Nat} {task : Task S K Wait ε}

/-- The sections of each task, by its index. -/
def sections (l : EventLoop S K Wait ε) (i : Nat) : List K :=
  ((l.tasks[i]?).map Task.held).getD []

theorem sections_of_get (h : l.tasks[index]? = some task) : l.sections index = task.held := by
  simp [sections, h]

theorem sections_set (h : l.tasks[index]? = some task) (task' : Task S K Wait ε) (s : S) :
    (EventLoop.mk s (l.tasks.set index task')).sections =
      Function.update l.sections index task'.held := by
  have hlt : index < l.tasks.length := (List.getElem?_eq_some_iff.1 h).1
  funext j
  by_cases hj : j = index
  · subst hj
    simp [sections, hlt]
  · simp [sections, hj, List.getElem?_set_ne (Ne.symm hj)]

theorem sections_append (task' : Task S K Wait ε) (s : S) :
    (EventLoop.mk s (l.tasks ++ [task'])).sections =
      Function.update l.sections l.tasks.length task'.held := by
  funext j
  by_cases hj : j = l.tasks.length
  · subst hj
    simp [sections]
  · rw [Function.update_of_ne hj]
    simp only [sections]
    by_cases hlt : j < l.tasks.length
    · rw [List.getElem?_append_left hlt]
    · have hge : l.tasks.length + 1 ≤ j := by omega
      rw [List.getElem?_eq_none (by simpa using hge), List.getElem?_eq_none (by omega)]

theorem beside_others (l : EventLoop S K Wait ε) (index : Nat) :
    Beside l.sections index (l.others index) := by
  intro j hj
  cases htask : l.tasks[j]? with
  | none => exact .inl (by simp [sections, htask])
  | some task =>
    refine .inr (List.mem_map.2 ⟨task, List.mem_eraseIdx_iff_getElem?.2 ⟨j, hj, htask⟩, ?_⟩)
    exact (sections_of_get htask).symm

theorem beside_all (l : EventLoop S K Wait ε) :
    Beside l.sections l.tasks.length (l.tasks.map Task.held) := by
  intro j _
  cases htask : l.tasks[j]? with
  | none => exact .inl (by simp [sections, htask])
  | some task =>
    exact .inr (List.mem_map.2 ⟨task, List.mem_of_getElem? htask, (sections_of_get htask).symm⟩)

/-- Every task waits, and keeps the discipline from here. -/
structure Kept (M : Machine S K Job Choice Env Wait ε) (D : Discipline S K Choice Wait)
    (l : EventLoop S K Wait ε) : Prop where
  inv : D.inv l.shared
  world : D.world l.sections l.shared
  tasks : ∀ (i : Nat) (task : Task S K Wait ε), l.tasks[i]? = some task → Routine.AtRest task.program ∧
    Sound M D task.interrupt task.program (fun _ _ _ => True) task.held l.shared

variable {M : Machine S K Job Choice Env Wait ε} {D : Discipline S K Choice Wait}

/-- The other tasks are as they were. -/
theorem Kept.others (hlaw : D.Lawful M.react) (hk : l.Kept M D) {s : S}
    (hrely : ∀ j, j ≠ index → D.rely (l.sections j) l.shared s) {j : Nat} (hj : j ≠ index)
    (h : l.tasks[j]? = some task) : Routine.AtRest task.program ∧
      Sound M D task.interrupt task.program (fun _ _ _ => True) task.held s := by
  obtain ⟨hrest, hsound⟩ := hk.tasks j task h
  have hkept := hrely j hj
  rw [sections_of_get h] at hkept
  exact ⟨hrest, hsound.wait hlaw hrest (fun _ _ _ _ _ => trivial) hkept⟩

theorem resume_kept (hlaw : D.Lawful M.react) (hk : l.Kept M D) (hget : l.tasks[index]? = some task)
    {p : Routine S K Wait ε Unit} {held : List K} {s : S} (hinv : D.inv s)
    (hrely : ∀ j, j ≠ index → D.rely (l.sections j) l.shared s)
    (hworld : D.world (Function.update l.sections index held) s)
    (hsound : Sound M D task.interrupt p (fun _ _ _ => True) held s)
    (henters : p.Enters (D.admits · (l.others index)) s) :
    (l.resume index task p held s).Kept M D := by
  have hbeside : Beside (Function.update l.sections index held) index (l.others index) := by
    intro j hj
    rw [Function.update_of_ne hj]
    exact beside_others l index j hj
  have hheld : Function.update l.sections index held index = held := Function.update_self index _ _
  have hsettled := settle_settled hlaw hbeside hheld hsound hinv hworld henters
  obtain ⟨hatRest, hsound', hinv', hworld', hrely'⟩ := hsettled.head hlaw hrely
  refine ⟨hinv', ?_, ?_⟩
  · show D.world (EventLoop.mk _ (l.tasks.set index _)).sections _
    rw [sections_set hget]
    exact hworld'
  · intro j task' hj
    have hlt : index < l.tasks.length := (List.getElem?_eq_some_iff.1 hget).1
    by_cases hji : j = index
    · subst hji
      rw [show (l.resume j task p held s).tasks[j]? = some _ from
        List.getElem?_set_self hlt] at hj
      cases hj
      exact ⟨hatRest, hsound'⟩
    · rw [show (l.resume index task p held s).tasks[j]? = l.tasks[j]? from
        List.getElem?_set_ne (Ne.symm hji)] at hj
      exact hk.others hlaw hrely' hji hj

theorem start_kept (hlaw : D.Lawful M.react) (hk : l.Kept M D) (job : Job)
    (hsound : Sound M D (M.interrupt job) (M.program job) (fun _ _ _ => True) [] l.shared)
    (henters : Routine.Enters (D.admits · (l.tasks.map Task.held)) (M.program job) l.shared)
    [DecidableEq K] (hstep : l.step M (.start job : LoopEvent Job Choice Env) = some l') :
    l'.Kept M D := by
  have hheld : l.sections l.tasks.length = [] := by simp [sections]
  obtain ⟨hatRest, hsound', hinv', hworld', hrely'⟩ :=
    settle_settled hlaw (beside_all l) hheld hsound hk.inv hk.world henters
  cases hstep
  refine ⟨hinv', ?_, ?_⟩
  · rw [sections_append]
    exact hworld'
  · intro j task' hj
    by_cases hlt : j < l.tasks.length
    · rw [List.getElem?_append_left hlt] at hj
      exact hk.others hlaw hrely' (Nat.ne_of_lt hlt) hj
    · rw [List.getElem?_append_right (Nat.le_of_not_lt hlt), List.getElem?_singleton] at hj
      split at hj
      · cases hj
        exact ⟨hatRest, hsound'⟩
      · cases hj

theorem react_kept (hlaw : D.Lawful M.react) (hk : l.Kept M D) (env : Env) :
    (EventLoop.mk (M.react env l.shared) l.tasks).Kept M D where
  inv := hlaw.inv_react env _ hk.inv
  world := hlaw.world_react _ env _ hk.inv hk.world
  tasks i task hi := by
    obtain ⟨hrest, hsound⟩ := hk.tasks i task hi
    exact ⟨hrest, hsound.wait hlaw hrest (fun _ _ _ _ _ => trivial) (hlaw.rely_react _ env _ hk.inv)⟩

theorem interruptStep_kept (hlaw : D.Lawful M.react) (hk : l.Kept M D)
    (hget : l.tasks[index]? = some task)
    (hadmits : l.Admits M D.admits D.fair (.interrupt index : LoopEvent Job Choice Env))
    (hstep : l.interruptStep index task = some l') : l'.Kept M D := by
  obtain ⟨hrest, hsound⟩ := hk.tasks index task hget
  have hadmits := hadmits task hget
  have hself := sections_of_get hget
  have hworld : D.world (Function.update l.sections index task.held) l.shared := by
    rw [← hself, Function.update_eq_self]
    exact hk.world
  have hrely : ∀ j, j ≠ index → D.rely (l.sections j) l.shared l.shared :=
    fun j _ => hlaw.rely_refl _ _
  obtain ⟨interrupt, held, program⟩ := task
  match program, interrupt with
  | .done _, _ => cases hstep
  | .raise _, _ => cases hstep
  | .call (.sync _) _, _ => exact absurd hrest id
  | .call (.enter _ _ _) _, _ => exact absurd hrest id
  | .call (.leave _) _, _ => exact absurd hrest id
  | .call (.wait w) k, none => cases hstep
  | .call (.acquire κ result) k, none => cases hstep
  | .call (.wait w) k, some e =>
    cases hstep
    obtain ⟨_, hstop⟩ := hsound l.shared (hlaw.rely_refl _ _) hk.inv
    exact resume_kept hlaw hk hget hk.inv hrely hworld (hstop e rfl) (hadmits e rfl)
  | .call (.acquire κ result) k, some e =>
    cases hstep
    obtain ⟨_, hstop⟩ := hsound.2 l.shared (hlaw.rely_refl _ _) hk.inv
    exact resume_kept hlaw hk hget hk.inv hrely hworld (hstop e rfl) (hadmits e rfl)

variable [DecidableEq K]

theorem answerStep_kept (hlaw : D.Lawful M.react) (hk : l.Kept M D) {choice : Choice}
    (hget : l.tasks[index]? = some task)
    (hadmits : l.Admits M D.admits D.fair (.answer index choice : LoopEvent Job Choice Env))
    (hstep : l.answerStep M index choice task = some l') : l'.Kept M D := by
  obtain ⟨hrest, hsound⟩ := hk.tasks index task hget
  have hadmits := hadmits task hget
  have hself := sections_of_get hget
  obtain ⟨interrupt, held, program⟩ := task
  match program with
  | .done _ => cases hstep
  | .raise _ => cases hstep
  | .call (.sync _) _ => exact absurd hrest id
  | .call (.enter _ _ _) _ => exact absurd hrest id
  | .call (.leave _) _ => exact absurd hrest id
  | .call (.wait w) k =>
    obtain ⟨⟨reply, s⟩, hperform, hl'⟩ := Option.map_eq_some_iff.1 hstep
    cases hl'
    obtain ⟨hfair, henters⟩ := hadmits
    obtain ⟨hanswer, _⟩ := hsound l.shared (hlaw.rely_refl _ _) hk.inv
    obtain ⟨hinv, hguar, hnext⟩ := hanswer choice reply s hfair hperform
    rw [← show l.sections index = held from hself] at hguar
    refine resume_kept hlaw hk hget hinv ?_ ?_ hnext (henters _ hperform)
    · exact fun j hj => hlaw.rely_of_guar _ index j _ _ hk.inv hinv hk.world hj.symm hguar
    · rw [← show l.sections index = held from hself, Function.update_eq_self]
      exact hlaw.world_of_guar _ index _ _ hk.inv hinv hk.world hguar
  | .call (.acquire κ result) k =>
    obtain ⟨hallowed, henters⟩ := hadmits
    obtain ⟨hlock, hsound⟩ := hsound
    obtain ⟨hacquire, _⟩ := hsound l.shared (hlaw.rely_refl _ _) hk.inv
    simp only [answerStep] at hstep
    split at hstep
    · cases hstep
    · next hfree =>
      cases hstep
      -- the lock is free, so no other task holds it
      have hothers : ∀ j, j ≠ index → κ ∉ l.sections j := by
        intro j hj hmem
        cases beside_others l index j hj with
        | inl hnil => rw [hnil] at hmem; cases hmem
        | inr hin => exact hfree ⟨_, hin, hmem⟩
      obtain ⟨hentry, hworld⟩ := hlaw.acquire l.sections index κ _ _ hk.inv hk.world
        (beside_others l index) hallowed hlock hothers
      rw [show l.sections index = held from hself] at hentry hworld
      refine resume_kept hlaw hk hget hk.inv ?_ hworld (hacquire hentry) henters
      exact fun j _ => hlaw.rely_refl _ _

theorem step_kept (hlaw : D.Lawful M.react)
    (hjobs : ∀ job s, D.inv s →
      Sound M D (M.interrupt job) (M.program job) (fun _ _ _ => True) [] s)
    (hk : l.Kept M D) {event : LoopEvent Job Choice Env} (hadmits : l.Admits M D.admits D.fair event)
    (hstep : l.step M event = some l') : l'.Kept M D := by
  cases event with
  | start job => exact start_kept hlaw hk job (hjobs job l.shared hk.inv) hadmits hstep
  | answer index choice =>
    obtain ⟨task, hget, hanswer⟩ := Option.bind_eq_some_iff.1 hstep
    exact answerStep_kept hlaw hk hget hadmits hanswer
  | interrupt index =>
    obtain ⟨task, hget, hinterrupt⟩ := Option.bind_eq_some_iff.1 hstep
    exact interruptStep_kept hlaw hk hget hadmits hinterrupt
  | react env =>
    cases hstep
    exact react_kept hlaw hk env

/-- Tasks that keep a discipline one by one keep it together. -/
theorem run_kept (hlaw : D.Lawful M.react)
    (hjobs : ∀ job s, D.inv s →
      Sound M D (M.interrupt job) (M.program job) (fun _ _ _ => True) [] s)
    (hk : l.Kept M D) (hrun : Run M (Admits M D.admits D.fair) l l') : l'.Kept M D := by
  induction hrun with
  | refl => exact hk
  | tail _ hstep ih =>
    obtain ⟨event, hadmits, hstep⟩ := hstep
    exact step_kept hlaw hjobs ih hadmits hstep

end EventLoop

end Effect
