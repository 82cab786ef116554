import Mathlib.Data.Finset.Basic
import Mathlib.Data.Fintype.Basic
import Mathlib.Logic.Function.Basic
import Tableinator.Effect.Program

/-! # Transactions under READ COMMITTED

Concurrent transactions over one database.  A statement is two steps: it starts, and
takes its snapshot (what is committed then, under the transaction's own writes); and
it finishes, against the rows as they are by then, once no other transaction holds a
row it has to wait for.  A row a transaction has written is held until it ends, and
its writes become visible to the others when it commits.

`Engine` is the row-level meaning of a statement language: the reply read on the
snapshot, the rows a statement waits for and writes, and its effect on the latest
rows.  A snapshot row that another transaction has deleted meanwhile is `dead` to the
statement, even if a row like it was inserted since; a row updated in place is not.

The second half is a local logic: a session's program is verified against what the
others may do between its steps (`Interference`), and `Guarded` discharges that
interference for an invariant of some rows that every session changes only while it
holds one guard row. -/

namespace Relational

open Effect

structure Engine (Slot Store : Type) (Op : Type → Type) [DecidableEq Slot] where
  Row : Slot → Type
  get : Store → (slot : Slot) → Option (Row slot)
  /-- The first store's rows at the listed slots, the second's elsewhere. -/
  overlay : Store → Store → Finset Slot → Store
  read : ∀ {ρ}, Op ρ → Store → ρ
  waits : ∀ {ρ}, Op ρ → Store → Finset Slot → Slot → Bool
  writes : ∀ {ρ}, Op ρ → Store → Finset Slot → Store → Finset Slot
  apply : ∀ {ρ}, Op ρ → Store → Finset Slot → Store → Store
  /-- The slots whose rows are updated in place rather than deleted and inserted. -/
  revises : Slot → Bool
  get_overlay : ∀ own base held slot,
    get (overlay own base held) slot = if slot ∈ held then get own slot else get base slot
  get_apply : ∀ {ρ} (op : Op ρ) snapshot dead latest slot,
    slot ∉ writes op snapshot dead latest → get (apply op snapshot dead latest) slot = get latest slot
  waits_of_writes : ∀ {ρ} (op : Op ρ) snapshot dead latest slot,
    slot ∈ writes op snapshot dead latest → waits op snapshot dead slot = true

inductive Status where
  | open
  | committed
  | aborted
  deriving DecidableEq

/-- A statement between its start and its end. -/
structure Running (Slot Store : Type) where
  snapshot : Store
  dead : Finset Slot

structure Session (Slot Store : Type) (Op : Type → Type) (ε α : Type) where
  program : Program Op ε α
  own : Store
  held : Finset Slot
  running : Option (Running Slot Store)
  status : Status

structure System (ι Slot Store : Type) (Op : Type → Type) (ε α : Type) where
  committed : Store
  sessions : ι → Session Slot Store Op ε α

inductive Action (ι : Type) where
  | begin (i : ι)
  | finish (i : ι)
  | commit (i : ι)
  | abort (i : ι)

variable {ι Slot Store : Type} {Op : Type → Type} {ε α : Type} [DecidableEq Slot] [DecidableEq ι]
variable (E : Engine Slot Store Op)

/-- What a session reads: its own writes over what is committed. -/
def Session.view (session : Session Slot Store Op ε α) (committed : Store) : Store :=
  E.overlay session.own committed session.held

/-- A row the commit of `held` takes away from a snapshot. -/
def Engine.kills (before after : Store) (held : Finset Slot) : Finset Slot :=
  held.filter fun slot =>
    !(E.revises slot && (E.get before slot).isSome && (E.get after slot).isSome)

def Session.kill (session : Session Slot Store Op ε α) (slots : Finset Slot) :
    Session Slot Store Op ε α :=
  { session with running := session.running.map fun run => { run with dead := run.dead ∪ slots } }

namespace System

variable (σ : System ι Slot Store Op ε α)

/-- Sessions that have not issued a statement yet. -/
def start (committed : Store) (programs : ι → Program Op ε α) : System ι Slot Store Op ε α :=
  ⟨committed, fun i => ⟨programs i, committed, ∅, none, .open⟩⟩

def view (i : ι) : Store := (σ.sessions i).view E σ.committed

def set (i : ι) (session : Session Slot Store Op ε α) : System ι Slot Store Op ε α :=
  { σ with sessions := Function.update σ.sessions i session }

def begun (i : ι) : System ι Slot Store Op ε α :=
  σ.set i { σ.sessions i with running := some ⟨σ.view E i, ∅⟩ }

def finished (i : ι) (run : Running Slot Store) {ρ : Type} (op : Op ρ)
    (k : Except ε ρ → Program Op ε α) : System ι Slot Store Op ε α :=
  σ.set i { σ.sessions i with
    program := k (.ok (E.read op run.snapshot))
    -- it changes the rows as they are now, by what its snapshot selected
    own := E.apply op run.snapshot run.dead (σ.view E i)
    held := (σ.sessions i).held ∪ E.writes op run.snapshot run.dead (σ.view E i)
    running := none }

def closed (i : ι) (status : Status) : Session Slot Store Op ε α :=
  { σ.sessions i with held := ∅, running := none, status := status }

def committedBy (i : ι) : System ι Slot Store Op ε α where
  committed := σ.view E i
  sessions := fun j =>
    if j = i then σ.closed i .committed
    -- a statement that is running will find these rows gone
    else (σ.sessions j).kill (E.kills σ.committed (σ.view E i) (σ.sessions i).held)

def aborted (i : ι) : System ι Slot Store Op ε α := σ.set i (σ.closed i .aborted)

/-- No other session holds a row the statement waits for. -/
def Free (i : ι) (run : Running Slot Store) {ρ : Type} (op : Op ρ) : Prop :=
  ∀ j, j ≠ i → ∀ slot ∈ (σ.sessions j).held, E.waits op run.snapshot run.dead slot = false

inductive Step : Action ι → System ι Slot Store Op ε α → Prop
  | begin {i : ι} {ρ : Type} {op : Op ρ} {k : Except ε ρ → Program Op ε α}
      (hopen : (σ.sessions i).status = .open) (hidle : (σ.sessions i).running = none)
      (hcall : (σ.sessions i).program = .call op k) : Step (.begin i) (σ.begun E i)
  | finish {i : ι} {ρ : Type} {op : Op ρ} {k : Except ε ρ → Program Op ε α}
      {run : Running Slot Store} (hopen : (σ.sessions i).status = .open)
      (hrunning : (σ.sessions i).running = some run)
      (hcall : (σ.sessions i).program = .call op k) (hfree : σ.Free E i run op) :
      Step (.finish i) (σ.finished E i run op k)
  | commit {i : ι} {a : α} (hopen : (σ.sessions i).status = .open)
      (hidle : (σ.sessions i).running = none) (hdone : (σ.sessions i).program = .done a) :
      Step (.commit i) (σ.committedBy E i)
  | abort {i : ι} (hopen : (σ.sessions i).status = .open) : Step (.abort i) (σ.aborted i)

/-- The states of the runs whose steps all satisfy `admits`. -/
inductive Run (admits : System ι Slot Store Op ε α → Action ι → Prop) :
    System ι Slot Store Op ε α → Prop
  | start : Run admits σ
  | step {σ' σ'' : System ι Slot Store Op ε α} {action : Action ι} (hrun : Run admits σ')
      (hadmits : admits σ' action) (hstep : σ'.Step E action σ'') : Run admits σ''

/-- The same with what the steps showed on the way, which `admits` may ask about. -/
inductive RunWith {β : Type} (shows : System ι Slot Store Op ε α → Action ι → List β)
    (admits : List β → System ι Slot Store Op ε α → Action ι → Prop) :
    List β → System ι Slot Store Op ε α → Prop
  | start : RunWith shows admits [] σ
  | step {seen : List β} {σ' σ'' : System ι Slot Store Op ε α} {action : Action ι}
      (hrun : RunWith shows admits seen σ') (hadmits : admits seen σ' action)
      (hstep : σ'.Step E action σ'') : RunWith shows admits (seen ++ shows σ' action) σ''

variable {E σ} in
/-- A run whose steps are admitted whatever was shown. -/
theorem Run.shown {β : Type} {admits : List β → System ι Slot Store Op ε α → Action ι → Prop}
    {σ' : System ι Slot Store Op ε α} (h : σ.Run E (fun σ action => ∀ seen, admits seen σ action) σ')
    (shows : System ι Slot Store Op ε α → Action ι → List β) :
    ∃ seen, σ.RunWith E shows admits seen σ' := by
  induction h with
  | start => exact ⟨[], .start⟩
  | step hrun hadmits hstep ih =>
    obtain ⟨seen, hseen⟩ := ih
    exact ⟨_, .step hseen (hadmits seen) hstep⟩

/-! ## Running a schedule -/

section

variable [Fintype ι]

instance (i : ι) (run : Running Slot Store) {ρ : Type} (op : Op ρ) : Decidable (σ.Free E i run op) :=
  inferInstanceAs (Decidable (∀ j, j ≠ i → ∀ slot ∈ (σ.sessions j).held,
    E.waits op run.snapshot run.dead slot = false))

/-- One step of a schedule; `none` when the action is not enabled. -/
def perform : Action ι → Option (System ι Slot Store Op ε α)
  | .begin i =>
    match (σ.sessions i).status, (σ.sessions i).running, (σ.sessions i).program with
    | .open, none, .call _ _ => some (σ.begun E i)
    | _, _, _ => none
  | .finish i =>
    match (σ.sessions i).status, (σ.sessions i).running, (σ.sessions i).program with
    | .open, some run, .call op k => if σ.Free E i run op then some (σ.finished E i run op k) else none
    | _, _, _ => none
  | .commit i =>
    match (σ.sessions i).status, (σ.sessions i).running, (σ.sessions i).program with
    | .open, none, .done _ => some (σ.committedBy E i)
    | _, _, _ => none
  | .abort i =>
    match (σ.sessions i).status with
    | .open => some (σ.aborted i)
    | _ => none

variable {E σ} in
theorem step_of_perform {action : Action ι} {σ' : System ι Slot Store Op ε α}
    (h : σ.perform E action = some σ') : σ.Step E action σ' := by
  cases action with
  | begin i =>
    simp only [perform] at h
    split at h
    · next hopen hidle hcall => cases h; exact .begin hopen hidle hcall
    · cases h
  | finish i =>
    simp only [perform] at h
    split at h
    · next hopen hrunning hcall =>
      split at h
      · next hfree => cases h; exact .finish hopen hrunning hcall hfree
      · cases h
    · cases h
  | commit i =>
    simp only [perform] at h
    split at h
    · next hopen hidle hdone => cases h; exact .commit hopen hidle hdone
    · cases h
  | abort i =>
    simp only [perform] at h
    split at h
    · next hopen => cases h; exact .abort hopen
    · cases h

/-- A schedule, cut off where `check` fails. -/
def performAll (check : System ι Slot Store Op ε α → Action ι → Bool) (actions : List (Action ι)) :
    Option (System ι Slot Store Op ε α) :=
  actions.foldlM (fun σ action => if check σ action then σ.perform E action else none) σ

variable {E σ} in
theorem run_of_performAll {admits : System ι Slot Store Op ε α → Action ι → Prop}
    {check : System ι Slot Store Op ε α → Action ι → Bool}
    (hcheck : ∀ {σ action}, check σ action = true → admits σ action) {actions : List (Action ι)}
    {σ' : System ι Slot Store Op ε α} (h : σ.performAll E check actions = some σ') :
    σ.Run E admits σ' := by
  have hloop : ∀ (actions : List (Action ι)) (mid : System ι Slot Store Op ε α),
      σ.Run E admits mid → mid.performAll E check actions = some σ' → σ.Run E admits σ' := by
    intro actions
    induction actions with
    | nil =>
      intro mid hmid hnil
      simp only [performAll, List.foldlM_nil, Option.pure_def, Option.some.injEq] at hnil
      exact hnil ▸ hmid
    | cons action actions ih =>
      intro mid hmid hcons
      simp only [performAll, List.foldlM_cons, Option.bind_eq_bind, Option.bind_eq_some_iff] at hcons
      obtain ⟨next, hstep, hrest⟩ := hcons
      split at hstep
      · next hadmits => exact ih next (.step hmid (hcheck hadmits) (step_of_perform hstep)) hrest
      · cases hstep
  exact hloop actions σ .start h

end

end System

/-! ## Verifying one session against the others -/

/-- What a session's program moves: what it reads, and the rows it holds. -/
structure Local (Slot Store : Type) where
  view : Store
  held : Finset Slot

/-- What may happen around a session that holds `held`: how its view moves between two
    of its statements, how it moves under a running one and which rows of the snapshot
    die, and what is promised about a statement's snapshot and the rows it meets. -/
structure Interference (Slot Store : Type) (Op : Type → Type) where
  moves : Finset Slot → Store → Store → Prop
  spans : Finset Slot → Store → Store → Finset Slot → Prop
  answers : ∀ {ρ}, Op ρ → Store → Store → Prop

section

variable (I : Interference Slot Store Op)

/-- A statement of the session under interference. -/
def LocalStep (l : Local Slot Store) {ρ : Type} (op : Op ρ) (reply : ρ) (l' : Local Slot Store) :
    Prop :=
  ∃ snapshot latest dead, I.moves l.held l.view snapshot ∧
    I.spans l.held snapshot latest dead ∧ I.answers op snapshot latest ∧ reply = E.read op snapshot ∧
    l' = ⟨E.apply op snapshot dead latest, l.held ∪ E.writes op snapshot dead latest⟩

variable (ok : Local Slot Store → Prop) (Q : Local Slot Store → α → Prop)

/-- The session is somewhere in a verified run of its program. -/
def Session.Follows (session : Session Slot Store Op ε α) (committed : Store) : Prop :=
  ∃ v, ok ⟨v, session.held⟩ ∧ Program.wlp (LocalStep E I) ok session.program Q ⟨v, session.held⟩ ∧
    match session.running with
    | none => I.moves session.held v (session.view E committed)
    | some run => I.moves session.held v run.snapshot ∧
        I.spans session.held run.snapshot (session.view E committed) run.dead

end

theorem Engine.get_view {session : Session Slot Store Op ε α} {committed : Store} {slot : Slot} :
    E.get (session.view E committed) slot =
      if slot ∈ session.held then E.get session.own slot else E.get committed slot :=
  E.get_overlay _ _ _ _

/-- After a statement the session reads what the statement made of its view. -/
theorem Engine.get_view_finished {session : Session Slot Store Op ε α} {committed : Store}
    {run : Running Slot Store} {ρ : Type} {op : Op ρ} {program : Program Op ε α}
    {running : Option (Running Slot Store)} (slot : Slot) :
    E.get (Session.view E { session with
        program := program
        own := E.apply op run.snapshot run.dead (session.view E committed)
        held := session.held ∪ E.writes op run.snapshot run.dead (session.view E committed)
        running := running } committed) slot =
      E.get (E.apply op run.snapshot run.dead (session.view E committed)) slot := by
  rw [E.get_view]
  split
  · rfl
  · next hfree =>
    rw [Finset.mem_union, not_or] at hfree
    rw [E.get_apply _ _ _ _ _ hfree.2, E.get_view, if_neg hfree.1]

/-- A statement with nothing else running: it meets its own snapshot. -/
def Engine.alone {ρ : Type} (op : Op ρ) (st : Store) : ρ × Store :=
  (E.read op st, E.apply op st ∅ st)

/-- A program verified against interference that may as well be none, run alone. -/
theorem serial_of_wlp {I : Interference Slot Store Op} {ok : Local Slot Store → Prop}
    {Q : Local Slot Store → α → Prop} (hmoves : ∀ held st, I.moves held st st)
    (hspans : ∀ held st, I.spans held st st ∅)
    (hanswers : ∀ {ρ} (op : Op ρ) (st : Store), I.answers op st st) {program : Program Op ε α}
    {st st' : Store} {held : Finset Slot} {a : α}
    (hwlp : Program.wlp (LocalStep E I) ok program Q ⟨st, held⟩)
    (h : program.serial E.alone st = .ok (a, st')) : ∃ held', Q ⟨st', held'⟩ a := by
  induction program generalizing st held with
  | done b =>
    cases h
    exact ⟨held, hwlp⟩
  | raise e => cases h
  | call op k ih =>
    exact ih _ (hwlp _ _ ⟨st, st, ∅, hmoves held st, hspans held st, hanswers op st, rfl, rfl⟩).2 h

/-! ## Rows are held by one session at a time -/

namespace System

variable {E} {σ σ' : System ι Slot Store Op ε α} {action : Action ι} {i j : ι}

omit [DecidableEq Slot] in
@[simp] theorem set_committed (session : Session Slot Store Op ε α) :
    (σ.set i session).committed = σ.committed := rfl

omit [DecidableEq Slot] in
@[simp] theorem set_sessions_self (session : Session Slot Store Op ε α) :
    (σ.set i session).sessions i = session := Function.update_self ..

omit [DecidableEq Slot] in
theorem set_sessions_of_ne (session : Session Slot Store Op ε α) (h : j ≠ i) :
    (σ.set i session).sessions j = σ.sessions j := Function.update_of_ne h ..

@[simp] theorem committedBy_sessions_self :
    (σ.committedBy E i).sessions i = σ.closed i .committed := if_pos rfl

theorem committedBy_sessions_of_ne (h : j ≠ i) : (σ.committedBy E i).sessions j =
    (σ.sessions j).kill (E.kills σ.committed (σ.view E i) (σ.sessions i).held) := if_neg h

/-- Two sessions never hold the same row, and one that has ended holds none. -/
structure Exclusive (σ : System ι Slot Store Op ε α) : Prop where
  disjoint : ∀ {i j slot}, i ≠ j → slot ∈ (σ.sessions i).held → slot ∉ (σ.sessions j).held
  ended : ∀ {i}, (σ.sessions i).status ≠ .open → (σ.sessions i).held = ∅

omit [DecidableEq Slot] [DecidableEq ι] in
theorem exclusive_start (committed : Store) (programs : ι → Program Op ε α) :
    (start committed programs : System ι Slot Store Op ε α).Exclusive where
  disjoint _ h := by simp [start] at h
  ended _ := rfl

omit [DecidableEq Slot] in
/-- A session whose held rows no one else holds may take the place of another. -/
theorem Exclusive.set (h : σ.Exclusive) {session : Session Slot Store Op ε α}
    (hheld : ∀ slot ∈ session.held, slot ∈ (σ.sessions i).held ∨
      ∀ j, j ≠ i → slot ∉ (σ.sessions j).held)
    (hended : session.status ≠ .open → session.held = ∅) : (σ.set i session).Exclusive where
  disjoint := by
    intro a b slot hne ha hb
    by_cases hai : a = i
    · subst hai
      rw [set_sessions_self] at ha
      rw [set_sessions_of_ne _ hne.symm] at hb
      rcases hheld slot ha with hmine | hfree
      · exact h.disjoint hne hmine hb
      · exact hfree b hne.symm hb
    · rw [set_sessions_of_ne _ hai] at ha
      by_cases hbi : b = i
      · subst hbi
        rw [set_sessions_self] at hb
        rcases hheld slot hb with hmine | hfree
        · exact h.disjoint hne ha hmine
        · exact hfree a hai ha
      · rw [set_sessions_of_ne _ hbi] at hb
        exact h.disjoint hne ha hb
  ended := by
    intro a ha
    by_cases hai : a = i
    · subst hai
      rw [set_sessions_self] at ha ⊢
      exact hended ha
    · rw [set_sessions_of_ne _ hai] at ha ⊢
      exact h.ended ha

theorem Exclusive.step (h : σ.Exclusive) (hstep : σ.Step E action σ') : σ'.Exclusive := by
  cases hstep with
  | begin hopen hidle hcall =>
    exact h.set (fun _ => .inl) fun hclosed => absurd hopen hclosed
  | @finish i ρ op k run hopen hrunning hcall hfree =>
    refine h.set (fun slot hslot => ?_) fun hclosed => absurd hopen hclosed
    rcases Finset.mem_union.1 hslot with hmine | hwrites
    · exact .inl hmine
    · refine .inr fun j hne hheld => ?_
      -- it waited for every row it writes, so nobody else holds one
      have hwaits := E.waits_of_writes _ _ _ _ _ hwrites
      rw [hfree j hne slot hheld] at hwaits
      cases hwaits
  | @commit i a hopen hidle hdone =>
    refine ⟨fun {a b slot} hne ha hb => ?_, fun {a} ha => ?_⟩
    · by_cases hai : a = i
      · subst hai
        simp [committedBy_sessions_self, closed] at ha
      · rw [committedBy_sessions_of_ne hai] at ha
        by_cases hbi : b = i
        · subst hbi
          simp [committedBy_sessions_self, closed] at hb
        · rw [committedBy_sessions_of_ne hbi] at hb
          exact h.disjoint hne ha hb
    · by_cases hai : a = i
      · subst hai
        simp [committedBy_sessions_self, closed]
      · rw [committedBy_sessions_of_ne hai] at ha ⊢
        exact h.ended ha
  | abort hopen =>
    exact h.set (fun slot hslot => by simp [closed] at hslot) fun _ => rfl

end System

/-! ## Invariants behind a guard row -/

/-- An invariant of the rows `inside`, which a session changes only while it holds
    `guard`. -/
structure Guarded where
  inside : Slot → Prop
  guard : Slot
  guard_inside : inside guard
  Inv : Store → Prop
  congr : ∀ {a b}, (∀ slot, inside slot → E.get a slot = E.get b slot) → Inv a → Inv b

namespace Guarded

variable {E} (G : Guarded E) (answers : ∀ {ρ}, Op ρ → Store → Store → Prop)

def Agree (a b : Store) : Prop := ∀ slot, G.inside slot → E.get a slot = E.get b slot

/-- Whoever holds the guard has the rows inside to itself; to the others they move, but
    the invariant holds whenever they look. -/
def interference : Interference Slot Store Op where
  moves held v v' := (G.guard ∈ held → G.Agree v v') ∧ (G.guard ∉ held → G.Inv v')
  spans held snapshot latest dead :=
    (G.guard ∈ held → G.Agree snapshot latest ∧ ∀ slot ∈ dead, ¬G.inside slot) ∧
      (G.guard ∉ held → G.Inv latest)
  answers := answers

def Disciplined (held : Finset Slot) : Prop := ∀ slot ∈ held, G.inside slot → G.guard ∈ held

/-- The program, started on a database that satisfies the invariant, keeps it. -/
def Verifies (program : Program Op ε α) : Prop :=
  ∀ v, G.Inv v → Program.wlp (LocalStep E (G.interference answers)) (fun l => G.Disciplined l.held) program
    (fun l _ => G.Inv l.view) ⟨v, ∅⟩

variable {G answers}

theorem Agree.refl (a : Store) : G.Agree a a := fun _ _ => rfl

theorem Agree.trans {a b c : Store} (h : G.Agree a b) (h' : G.Agree b c) : G.Agree a c :=
  fun slot hslot => (h slot hslot).trans (h' slot hslot)

/-- A session that does not hold the guard reads the committed rows inside. -/
theorem agree_view {session : Session Slot Store Op ε α} {committed : Store}
    (hdisciplined : G.Disciplined session.held) (hguard : G.guard ∉ session.held) :
    G.Agree committed (session.view E committed) := by
  intro slot hslot
  have hfree : slot ∉ session.held := fun hheld => hguard (hdisciplined slot hheld hslot)
  rw [E.get_view, if_neg hfree]

theorem moves_view {session : Session Slot Store Op ε α} {committed v : Store}
    (hinv : G.Inv committed) (hdisciplined : G.Disciplined session.held)
    (hagree : G.guard ∈ session.held → G.Agree v (session.view E committed)) :
    (G.interference answers).moves session.held v (session.view E committed) :=
  ⟨hagree, fun hguard => G.congr (agree_view hdisciplined hguard) hinv⟩

/-- The invariant is kept when the program runs alone. -/
theorem serial_inv {program : Program Op ε α} {st st' : Store} {a : α}
    (hverifies : G.Verifies answers program)
    (hanswers : ∀ {ρ} (op : Op ρ) (st : Store), answers op st st) (hinv : G.Inv st)
    (h : program.serial E.alone st = .ok (a, st')) : G.Inv st' := by
  have hloop : ∀ (program : Program Op ε α) (st : Store) (held : Finset Slot),
      Program.wlp (LocalStep E (G.interference answers)) (fun l => G.Disciplined l.held) program
        (fun l _ => G.Inv l.view) ⟨st, held⟩ → (G.guard ∉ held → G.Inv st) →
      program.serial E.alone st = .ok (a, st') →
      G.Inv st' := by
    intro program
    -- on the program: until it holds the guard it writes no row inside
    induction program with
    | done b =>
      intro st held hwlp _ hdone
      cases hdone
      exact hwlp
    | raise e =>
      intro st held _ _ hraise
      cases hraise
    | call op k ih =>
      intro st held hwlp hst hcall
      have hmoves : (G.interference answers).moves held st st := ⟨fun _ => Agree.refl st, hst⟩
      have hspans : (G.interference answers).spans held st st ∅ :=
        ⟨fun _ => ⟨Agree.refl st, fun _ hslot => absurd hslot (Finset.notMem_empty _)⟩, hst⟩
      obtain ⟨hdisciplined, hrest⟩ := hwlp _ _ ⟨st, st, ∅, hmoves, hspans, hanswers op st, rfl, rfl⟩
      refine ih _ _ _ hrest (fun hguard => ?_) hcall
      have hfree : ∀ slot, G.inside slot → slot ∉ E.writes op st ∅ st := fun slot hslot hwrites =>
        hguard (hdisciplined slot (Finset.mem_union_right _ hwrites) hslot)
      have hheld : G.guard ∉ held := fun hheld => hguard (Finset.mem_union_left _ hheld)
      exact G.congr (fun slot hslot => (E.get_apply _ _ _ _ _ (hfree slot hslot)).symm) (hst hheld)
  exact hloop program st ∅ (hverifies st hinv) (fun _ => hinv) h

/-- A program verified for a session that holds the guard, run alone. -/
theorem serial_of_held {ok : Local Slot Store → Prop} {Q : Local Slot Store → α → Prop}
    {program : Program Op ε α} {st st' : Store} {held : Finset Slot} {a : α}
    (hanswers : ∀ {ρ} (op : Op ρ) (st : Store), answers op st st) (hguard : G.guard ∈ held)
    (hwlp : Program.wlp (LocalStep E (G.interference answers)) ok program Q ⟨st, held⟩)
    (h : program.serial E.alone st = .ok (a, st')) : ∃ held', Q ⟨st', held'⟩ a := by
  induction program generalizing st held with
  | done b =>
    cases h
    exact ⟨held, hwlp⟩
  | raise e => cases h
  | call op k ih =>
    have hmoves : (G.interference answers).moves held st st :=
      ⟨fun _ => Agree.refl st, fun hfree => absurd hguard hfree⟩
    have hspans : (G.interference answers).spans held st st ∅ :=
      ⟨fun _ => ⟨Agree.refl st, fun _ hslot => absurd hslot (Finset.notMem_empty _)⟩,
        fun hfree => absurd hguard hfree⟩
    exact ih _ (Finset.mem_union_left _ hguard)
      (hwlp _ _ ⟨st, st, ∅, hmoves, hspans, hanswers op st, rfl, rfl⟩).2 h

end Guarded

/-- What the run promises of every statement that finishes. -/
def System.Answers (answers : ∀ {ρ}, Op ρ → Store → Store → Prop)
    (σ : System ι Slot Store Op ε α) : Action ι → Prop
  | .finish i => ∀ {ρ : Type} {op : Op ρ} {k : Except ε ρ → Program Op ε α}
      {run : Running Slot Store}, (σ.sessions i).running = some run →
      (σ.sessions i).program = .call op k → answers op run.snapshot (σ.view E i)
  | _ => True

/-! ## Guarded invariants of a whole system -/

section

variable {E} {I : Interference Slot Store Op} {ok : Local Slot Store → Prop}
  {Q : Local Slot Store → α → Prop} {session : Session Slot Store Op ε α} {committed : Store}

/-- Starting a statement takes the view as its snapshot. -/
theorem Session.Follows.begin (h : session.Follows E I ok Q committed)
    (hidle : session.running = none)
    (hspans : I.spans session.held (session.view E committed) (session.view E committed) ∅) :
    Session.Follows E I ok Q
      { session with running := some ⟨session.view E committed, ∅⟩ } committed := by
  obtain ⟨v, hok, hwlp, hrunning⟩ := h
  rw [hidle] at hrunning
  exact ⟨v, hok, hwlp, hrunning, hspans⟩

/-- Finishing one continues the program on what it made of the view. -/
theorem Session.Follows.finish {ρ : Type} {op : Op ρ} {k : Except ε ρ → Program Op ε α}
    {run : Running Slot Store} (h : session.Follows E I ok Q committed)
    (hrunning : session.running = some run) (hcall : session.program = .call op k)
    (hanswers : I.answers op run.snapshot (session.view E committed)) :
    ok ⟨E.apply op run.snapshot run.dead (session.view E committed),
        session.held ∪ E.writes op run.snapshot run.dead (session.view E committed)⟩ ∧
      Program.wlp (LocalStep E I) ok (k (.ok (E.read op run.snapshot))) Q
        ⟨E.apply op run.snapshot run.dead (session.view E committed),
          session.held ∪ E.writes op run.snapshot run.dead (session.view E committed)⟩ := by
  obtain ⟨v, _, hwlp, hmatch⟩ := h
  rw [hrunning] at hmatch
  rw [hcall] at hwlp
  exact hwlp _ _ ⟨_, _, _, hmatch.1, hmatch.2, hanswers, rfl, rfl⟩

/-- The rest of the system moves, and the session follows on. -/
theorem Session.Follows.around {committed' : Store} {slots : Finset Slot}
    (h : session.Follows E I ok Q committed)
    (hmoves : ∀ {v}, I.moves session.held v (session.view E committed) →
      I.moves session.held v (session.view E committed'))
    (hspans : ∀ {v dead}, I.spans session.held v (session.view E committed) dead →
      I.spans session.held v (session.view E committed') (dead ∪ slots)) :
    (session.kill slots).Follows E I ok Q committed' := by
  obtain ⟨v, hok, hwlp, hmatch⟩ := h
  refine ⟨v, hok, hwlp, ?_⟩
  cases hrunning : session.running with
  | none =>
    rw [hrunning] at hmatch
    simp only [Session.kill, hrunning, Option.map_none]
    exact hmoves hmatch
  | some run =>
    rw [hrunning] at hmatch
    simp only [Session.kill, hrunning, Option.map_some]
    exact ⟨hmatch.1, hspans hmatch.2⟩

end

namespace Guarded

variable {E} (G : Guarded E) (answers : ∀ {ρ}, Op ρ → Store → Store → Prop)

/-- The invariant holds of what is committed, and every open session keeps to its part. -/
structure Sound (σ : System ι Slot Store Op ε α) : Prop where
  inv : G.Inv σ.committed
  exclusive : σ.Exclusive
  disciplined : ∀ {i}, G.Disciplined (σ.sessions i).held
  follows : ∀ {i}, (σ.sessions i).status = .open → (σ.sessions i).Follows E
    (G.interference answers) (fun l => G.Disciplined l.held) (fun l _ => G.Inv l.view) σ.committed

variable {G answers} {σ σ' : System ι Slot Store Op ε α} {action : Action ι}

omit [DecidableEq ι] in
theorem sound_start {committed : Store} {programs : ι → Program Op ε α} (hinv : G.Inv committed)
    (hverifies : ∀ i, G.Verifies answers (programs i)) :
    G.Sound answers (System.start committed programs) where
  inv := hinv
  exclusive := System.exclusive_start committed programs
  disciplined := by
    intro i slot hslot
    simp [System.start] at hslot
  follows := by
    intro i _
    refine ⟨committed, fun slot hslot => by simp [System.start] at hslot,
      hverifies i committed hinv, ?_⟩
    refine ⟨fun hguard => by simp [System.start] at hguard, fun hguard => ?_⟩
    refine G.congr (fun slot _ => ?_) hinv
    rw [E.get_view]
    rfl

omit [DecidableEq ι] in
/-- What a session's commit does to the rows inside, seen by a session that holds the
    guard: nothing. -/
theorem Sound.commit_outside (h : G.Sound answers σ) {i j : ι} (hne : i ≠ j)
    (hguard : G.guard ∈ (σ.sessions j).held) {slot : Slot} (hslot : G.inside slot) :
    slot ∉ (σ.sessions i).held := fun hheld =>
  h.exclusive.disjoint hne (h.disciplined slot hheld hslot) hguard

/-- One session moves by itself, and nothing is committed. -/
theorem Sound.set (h : G.Sound answers σ) {i : ι} {session : Session Slot Store Op ε α}
    (hexclusive : (σ.set i session).Exclusive) (hdisciplined : G.Disciplined session.held)
    (hfollows : session.status = .open → session.Follows E (G.interference answers)
      (fun l => G.Disciplined l.held) (fun l _ => G.Inv l.view) σ.committed) :
    G.Sound answers (σ.set i session) where
  inv := h.inv
  exclusive := hexclusive
  disciplined := by
    intro j
    by_cases hji : j = i
    · subst hji
      rw [System.set_sessions_self]
      exact hdisciplined
    · rw [System.set_sessions_of_ne _ hji]
      exact h.disciplined
  follows := by
    intro j hj
    by_cases hji : j = i
    · subst hji
      rw [System.set_sessions_self] at hj ⊢
      exact hfollows hj
    · rw [System.set_sessions_of_ne _ hji] at hj ⊢
      exact h.follows hj

omit [DecidableEq ι] in
/-- A program that is done leaves the invariant in its session's view. -/
theorem Sound.inv_view (h : G.Sound answers σ) {i : ι} {a : α} (hopen : (σ.sessions i).status = .open)
    (hidle : (σ.sessions i).running = none) (hdone : (σ.sessions i).program = .done a) :
    G.Inv (σ.view E i) := by
  obtain ⟨v, _, hwlp, hmatch⟩ := h.follows hopen
  rw [hidle] at hmatch
  rw [hdone] at hwlp
  by_cases hguard : G.guard ∈ (σ.sessions i).held
  · exact G.congr (hmatch.1 hguard) hwlp
  · exact hmatch.2 hguard

/-- The others follow a commit: whoever holds the guard sees nothing of it. -/
theorem Sound.committedBy (h : G.Sound answers σ) {i : ι}
    (hexclusive : (σ.committedBy E i).Exclusive) (hview : G.Inv (σ.view E i)) :
    G.Sound answers (σ.committedBy E i) where
  inv := hview
  exclusive := hexclusive
  disciplined := by
    intro j
    by_cases hji : j = i
    · subst hji
      intro slot hslot
      simp [System.closed] at hslot
    · rw [System.committedBy_sessions_of_ne hji]
      exact h.disciplined
  follows := by
    intro j hj
    by_cases hji : j = i
    · subst hji
      simp [System.closed] at hj
    · rw [System.committedBy_sessions_of_ne hji] at hj ⊢
      have hagree : G.guard ∈ (σ.sessions j).held → G.Agree (σ.view E j)
          ((σ.sessions j).view E (σ.committedBy E i).committed) := by
        intro hguard slot hinside
        rw [System.view, E.get_view, E.get_view, System.committedBy, System.view, E.get_view,
          if_neg (h.commit_outside (Ne.symm hji) hguard hinside)]
      refine (h.follows hj).around (fun hmoves => ?_) fun {v dead} hspans => ?_
      · exact moves_view hview h.disciplined fun hguard =>
          (hmoves.1 hguard).trans (hagree hguard)
      · refine ⟨fun hguard => ⟨(hspans.1 hguard).1.trans (hagree hguard), fun slot hslot => ?_⟩,
          fun hguard => G.congr (agree_view h.disciplined hguard) hview⟩
        rcases Finset.mem_union.1 hslot with hdead | hkilled
        · exact (hspans.1 hguard).2 slot hdead
        · exact fun hinside => h.commit_outside (Ne.symm hji) hguard hinside
            (Finset.mem_filter.1 hkilled).1

theorem Sound.step (h : G.Sound answers σ) (hanswers : σ.Answers E answers action)
    (hstep : σ.Step E action σ') : G.Sound answers σ' := by
  have hexclusive := h.exclusive.step hstep
  cases hstep with
  | @begin i ρ op k hopen hidle hcall =>
    refine h.set hexclusive h.disciplined fun _ => ?_
    refine (h.follows hopen).begin hidle ⟨fun _ => ⟨Agree.refl _, ?_⟩, ?_⟩
    · exact fun _ hslot => absurd hslot (Finset.notMem_empty _)
    · exact fun hguard => G.congr (agree_view h.disciplined hguard) h.inv
  | @finish i ρ op k run hopen hrunning hcall hfree =>
    obtain ⟨hok, hwlp⟩ := (h.follows hopen).finish hrunning hcall (hanswers hrunning hcall)
    refine h.set hexclusive hok fun _ => ⟨_, hok, hwlp, ?_⟩
    exact moves_view h.inv hok fun _ slot _ => (E.get_view_finished slot).symm
  | @commit i a hopen hidle hdone =>
    exact h.committedBy hexclusive (h.inv_view hopen hidle hdone)
  | @abort i hopen =>
    refine h.set hexclusive ?_ fun hstill => by simp [System.closed] at hstill
    intro slot hslot
    simp [System.closed] at hslot

/-- In every run whose statements meet the promise, what is committed satisfies the
    invariant. -/
theorem committed_inv {committed : Store} {programs : ι → Program Op ε α}
    (hinv : G.Inv committed) (hverifies : ∀ i, G.Verifies answers (programs i))
    (hrun : (System.start committed programs).Run E (System.Answers E answers) σ) :
    G.Inv σ.committed := by
  have hsound : G.Sound answers σ := by
    induction hrun with
    | start => exact sound_start hinv hverifies
    | step _ hadmits hstep ih => exact ih.step hadmits hstep
  exact hsound.inv

end Guarded

end Relational
