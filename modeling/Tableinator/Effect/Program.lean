import Mathlib.Logic.Relation

/-! # Programs that call their environment

A program is a tree of calls: each call is answered by the environment, with a
reply or with an exception, and the rest of the program depends on the answer.
`wp` is the weakest precondition of such a program for a protocol that its calls
must respect: `allow` says which call a protocol state permits and `next` how an
answer moves the state.  A program that satisfies it may be interleaved with
anything, since only its own calls move its protocol state. -/

namespace Effect

variable {Op : Type → Type} {ε α β ρ σ : Type}

inductive Program (Op : Type → Type) (ε α : Type) : Type 1 where
  | done (a : α)
  | raise (e : ε)
  | call {ρ : Type} (op : Op ρ) (k : Except ε ρ → Program Op ε α)

namespace Program

protected def bind : Program Op ε α → (α → Program Op ε β) → Program Op ε β
  | .done a, f => f a
  | .raise e, _ => .raise e
  | .call op k, f => .call op fun r => (k r).bind f

/-- `try: body  except: handler`. -/
def tryCatch : Program Op ε α → (ε → Program Op ε α) → Program Op ε α
  | .done a, _ => .done a
  | .raise e, handler => handler e
  | .call op k, handler => .call op fun r => (k r).tryCatch handler

/-- Goes on with the outcome of the program, a result or an exception. -/
def follow : Program Op ε α → (Except ε α → Program Op ε β) → Program Op ε β
  | .done a, f => f (.ok a)
  | .raise e, f => f (.error e)
  | .call op k, f => .call op fun r => (k r).follow f

/-- `try: body  finally: last`. -/
def ensuring (p : Program Op ε α) (last : Program Op ε Unit) : Program Op ε α :=
  p.follow fun
    | .ok a => last.bind fun _ => .done a
    | .error e => last.bind fun _ => .raise e

theorem bind_eq_follow (p : Program Op ε α) (f : α → Program Op ε β) :
    p.bind f = p.follow fun
      | .ok a => f a
      | .error e => .raise e := by
  induction p with
  | done a => rfl
  | raise e => rfl
  | call op k ih => exact congrArg (Program.call op) (funext ih)

theorem tryCatch_eq_follow (p : Program Op ε α) (handler : ε → Program Op ε α) :
    p.tryCatch handler = p.follow fun
      | .ok a => .done a
      | .error e => handler e := by
  induction p with
  | done a => rfl
  | raise e => rfl
  | call op k ih => exact congrArg (Program.call op) (funext ih)

/-- The program with its calls renamed into a larger set. -/
def lift {Op' : Type → Type} (f : ∀ {ρ}, Op ρ → Op' ρ) : Program Op ε α → Program Op' ε α
  | .done a => .done a
  | .raise e => .raise e
  | .call op k => .call (f op) fun r => (k r).lift f

instance : Monad (Program Op ε) where
  pure := .done
  bind := .bind

theorem lawful : LawfulMonad (Program Op ε) := by
  have hpure : ∀ {α : Type} (p : Program Op ε α), p.bind .done = p := by
    intro α p
    induction p with
    | done a => rfl
    | raise e => rfl
    | call op k ih => exact congrArg (Program.call op) (funext ih)
  have hassoc : ∀ {α β γ : Type} (p : Program Op ε α) (f : α → Program Op ε β)
      (g : β → Program Op ε γ), (p.bind f).bind g = p.bind fun a => (f a).bind g := by
    intro α β γ p f g
    induction p with
    | done a => rfl
    | raise e => rfl
    | call op k ih => exact congrArg (Program.call op) (funext fun r => ih r)
  exact LawfulMonad.mk' _ hpure (fun _ _ => rfl) hassoc

/-- Make one call; its exception propagates. -/
def await (op : Op ρ) : Program Op ε ρ :=
  .call op fun
    | .ok reply => .done reply
    | .error e => .raise e

/-! ## Weakest preconditions -/

section

variable (allow : σ → ∀ {ρ}, Op ρ → Prop) (next : σ → ∀ {ρ}, Op ρ → Except ε ρ → σ)

def wp : Program Op ε α → (σ → Except ε α → Prop) → σ → Prop
  | .done a, Q, s => Q s (.ok a)
  | .raise e, Q, s => Q s (.error e)
  | .call op k, Q, s => allow s op ∧ ∀ r, (k r).wp Q (next s op r)

variable {allow next}

@[simp] theorem wp_pure (a : α) (Q : σ → Except ε α → Prop) (s : σ) :
    wp allow next (Pure.pure a : Program Op ε α) Q s ↔ Q s (.ok a) := Iff.rfl

@[simp] theorem wp_raise (e : ε) (Q : σ → Except ε α → Prop) (s : σ) :
    wp allow next (.raise e : Program Op ε α) Q s ↔ Q s (.error e) := Iff.rfl

@[simp] theorem wp_await (op : Op ρ) (Q : σ → Except ε ρ → Prop) (s : σ) :
    wp allow next (await op) Q s ↔ allow s op ∧
      (∀ a, Q (next s op (.ok a)) (.ok a)) ∧ ∀ e, Q (next s op (.error e)) (.error e) := by
  simp only [await, wp]
  refine and_congr_right fun _ => ⟨fun h => ⟨fun a => h (.ok a), fun e => h (.error e)⟩, ?_⟩
  rintro ⟨hok, herror⟩ r
  cases r with
  | ok a => exact hok a
  | error e => exact herror e

@[simp] theorem wp_ite (c : Prop) [Decidable c] (p q : Program Op ε α)
    (Q : σ → Except ε α → Prop) (s : σ) :
    wp allow next (if c then p else q) Q s ↔
      (c → wp allow next p Q s) ∧ (¬c → wp allow next q Q s) := by
  split
  · next h => simp [h]
  · next h => simp [h]

@[simp] theorem wp_bind (p : Program Op ε α) (f : α → Program Op ε β)
    (Q : σ → Except ε β → Prop) (s : σ) :
    wp allow next (p >>= f) Q s ↔
      wp allow next p (fun s r => match r with
        | .ok a => wp allow next (f a) Q s
        | .error e => Q s (.error e)) s := by
  show wp allow next (p.bind f) Q s ↔ _
  induction p generalizing s with
  | done a => exact Iff.rfl
  | raise e => exact Iff.rfl
  | call op k ih => simp only [Program.bind, wp, ih]

@[simp] theorem wp_tryCatch (p : Program Op ε α) (handler : ε → Program Op ε α)
    (Q : σ → Except ε α → Prop) (s : σ) :
    wp allow next (p.tryCatch handler) Q s ↔
      wp allow next p (fun s r => match r with
        | .ok a => Q s (.ok a)
        | .error e => wp allow next (handler e) Q s) s := by
  induction p generalizing s with
  | done a => exact Iff.rfl
  | raise e => exact Iff.rfl
  | call op k ih => simp only [tryCatch, wp, ih]

/-- Nothing is asked of a program whose calls are all allowed. -/
theorem wp_of_forall {p : Program Op ε α} {Q : σ → Except ε α → Prop} {s : σ}
    (hallow : ∀ s {ρ} (op : Op ρ), allow s op) (h : ∀ s r, Q s r) : wp allow next p Q s := by
  induction p generalizing s with
  | done a => exact h s (.ok a)
  | raise e => exact h s (.error e)
  | call op k ih => exact ⟨hallow s op, fun r => ih r⟩

/-- A program behaves the same over a larger set of calls. -/
theorem wp_lift {Op' : Type → Type} (f : ∀ {ρ}, Op' ρ → Op ρ) (p : Program Op' ε α)
    (Q : σ → Except ε α → Prop) (s : σ) :
    wp allow next (p.lift f) Q s ↔
      wp (fun s _ op => allow s (f op)) (fun s _ op r => next s (f op) r) p Q s := by
  induction p generalizing s with
  | done a => exact Iff.rfl
  | raise e => exact Iff.rfl
  | call op k ih => simp only [lift, wp, ih]

@[simp] theorem wp_follow (p : Program Op ε α) (f : Except ε α → Program Op ε β)
    (Q : σ → Except ε β → Prop) (s : σ) :
    wp allow next (p.follow f) Q s ↔ wp allow next p (fun s r => wp allow next (f r) Q s) s := by
  induction p generalizing s with
  | done a => exact Iff.rfl
  | raise e => exact Iff.rfl
  | call op k ih => simp only [follow, wp, ih]

theorem wp_mono {p : Program Op ε α} {Q Q' : σ → Except ε α → Prop} {s : σ}
    (h : wp allow next p Q s) (himp : ∀ s r, Q s r → Q' s r) : wp allow next p Q' s := by
  induction p generalizing s with
  | done a => exact himp _ _ h
  | raise e => exact himp _ _ h
  | call op k ih => exact ⟨h.1, fun r => ih r (h.2 r)⟩

end

/-- Every call the program can come to satisfies `p`, whatever the replies. -/
def Only (p : ∀ {ρ}, Op ρ → Prop) (q : Program Op ε α) : Prop :=
  wp (fun (_ : Unit) _ op => p op) (fun _ _ _ _ => ()) q (fun _ _ => True) ()

section

variable {p : ∀ {ρ}, Op ρ → Prop}

@[simp] theorem only_pure (a : α) : Only p (Pure.pure a : Program Op ε α) := trivial

@[simp] theorem only_raise (e : ε) : Only p (.raise e : Program Op ε α) := trivial

theorem only_await {op : Op ρ} (h : p op) : Only p (await op : Program Op ε ρ) :=
  (wp_await _ _ _).2 ⟨h, fun _ => trivial, fun _ => trivial⟩

theorem only_follow {q : Program Op ε α} {f : Except ε α → Program Op ε β} (hq : q.Only p)
    (hf : ∀ r, (f r).Only p) : (q.follow f).Only p :=
  (wp_follow _ _ _ _).2 (wp_mono hq fun _ r _ => hf r)

theorem only_bind {q : Program Op ε α} {f : α → Program Op ε β} (hq : q.Only p)
    (hf : ∀ a, (f a).Only p) : (q >>= f).Only p := by
  show (q.bind f).Only p
  rw [bind_eq_follow]
  refine only_follow hq fun r => ?_
  cases r with
  | ok a => exact hf a
  | error e => trivial

theorem only_tryCatch {q : Program Op ε α} {handler : ε → Program Op ε α} (hq : q.Only p)
    (hh : ∀ e, (handler e).Only p) : (q.tryCatch handler).Only p := by
  rw [tryCatch_eq_follow]
  refine only_follow hq fun r => ?_
  cases r with
  | ok a => trivial
  | error e => exact hh e

theorem only_ensuring {q : Program Op ε α} {last : Program Op ε Unit} (hq : q.Only p)
    (hl : last.Only p) : (q.ensuring last).Only p := by
  refine only_follow hq fun r => ?_
  cases r with
  | ok a => exact only_bind hl fun _ => trivial
  | error e => exact only_bind hl fun _ => trivial

theorem Only.mono {p' : ∀ {ρ}, Op ρ → Prop} {q : Program Op ε α} (hq : q.Only p)
    (himp : ∀ {ρ} (op : Op ρ), p op → p' op) : q.Only p' := by
  induction q with
  | done a => trivial
  | raise e => trivial
  | call op k ih => exact ⟨himp op hq.1, fun r => ih r (hq.2 r)⟩

end

/-- An assertion every such call is allowed under and preserves. -/
theorem wp_of_only {allow : σ → ∀ {ρ}, Op ρ → Prop} {next : σ → ∀ {ρ}, Op ρ → Except ε ρ → σ}
    {p : ∀ {ρ}, Op ρ → Prop} {I : σ → Prop}
    (hstep : ∀ s {ρ} (op : Op ρ), p op → I s → allow s op ∧ ∀ r, I (next s op r))
    {q : Program Op ε α} {s : σ} (hq : q.Only p) (hs : I s) :
    wp allow next q (fun s _ => I s) s := by
  induction q generalizing s with
  | done a => exact hs
  | raise e => exact hs
  | call op k ih =>
    obtain ⟨hallow, hnext⟩ := hstep s op hq.1 hs
    exact ⟨hallow, fun r => ih r (hq.2 r) (hnext r)⟩

/-! ## Partial correctness over a transition relation -/

section

variable (step : σ → ∀ {ρ}, Op ρ → ρ → σ → Prop) (ok : σ → Prop)

/-- Every run whose calls are answered along `step` stays in `ok`, and one that returns
    ends in `Q`. -/
def wlp : Program Op ε α → (σ → α → Prop) → σ → Prop
  | .done a, Q, s => Q s a
  | .raise _, _, _ => True
  | .call op k, Q, s => ∀ reply s', step s op reply s' → ok s' ∧ (k (.ok reply)).wlp Q s'

variable {step ok}

@[simp] theorem wlp_pure (a : α) (Q : σ → α → Prop) (s : σ) :
    wlp step ok (Pure.pure a : Program Op ε α) Q s ↔ Q s a := Iff.rfl

@[simp] theorem wlp_raise (e : ε) (Q : σ → α → Prop) (s : σ) :
    wlp step ok (.raise e : Program Op ε α) Q s := trivial

@[simp] theorem wlp_await (op : Op ρ) (Q : σ → ρ → Prop) (s : σ) :
    wlp step ok (await op : Program Op ε ρ) Q s ↔
      ∀ reply s', step s op reply s' → ok s' ∧ Q s' reply := Iff.rfl

@[simp] theorem wlp_bind (p : Program Op ε α) (f : α → Program Op ε β) (Q : σ → β → Prop)
    (s : σ) : wlp step ok (p >>= f) Q s ↔ wlp step ok p (fun s a => wlp step ok (f a) Q s) s := by
  show wlp step ok (p.bind f) Q s ↔ _
  induction p generalizing s with
  | done a => exact Iff.rfl
  | raise e => exact Iff.rfl
  | call op k ih => simp only [Program.bind, wlp, ih]

theorem wlp_mono {p : Program Op ε α} {Q Q' : σ → α → Prop} {s : σ}
    (h : wlp step ok p Q s) (himp : ∀ s a, Q s a → Q' s a) : wlp step ok p Q' s := by
  induction p generalizing s with
  | done a => exact himp _ _ h
  | raise e => exact h
  | call op k ih => exact fun reply s' hstep => ⟨(h reply s' hstep).1, ih _ (h reply s' hstep).2⟩

/-- The loop rule: the invariant speaks of the iterations still to come. -/
theorem wlp_forM {f : β → Program Op ε PUnit} (I : List β → σ → Prop) {xs : List β} {s : σ}
    (hinit : I xs s)
    (hbody : ∀ x rest s, I (x :: rest) s → wlp step ok (f x) (fun s _ => I rest s) s) :
    wlp step ok (xs.forM f) (fun s _ => I [] s) s := by
  induction xs generalizing s with
  | nil => exact hinit
  | cons x xs ih =>
    rw [List.forM_eq_forM, List.forM_cons, wlp_bind]
    exact wlp_mono (hbody x xs s hinit) fun s _ hrest => ih hrest

end

/-! ## Calls that succeed -/

section

variable (allow : σ → ∀ {ρ}, Op ρ → Prop) (next : σ → ∀ {ρ}, Op ρ → ρ → σ)

/-- As long as its calls are answered, the program makes only allowed ones, and one that
    returns ends in `Q`. -/
def wpOk : Program Op ε α → (σ → α → Prop) → σ → Prop
  | .done a, Q, s => Q s a
  | .raise _, _, _ => True
  | .call op k, Q, s => allow s op ∧ ∀ reply, (k (.ok reply)).wpOk Q (next s op reply)

variable {allow next}

@[simp] theorem wpOk_pure {a : α} {Q : σ → α → Prop} {s : σ} :
    wpOk allow next (Pure.pure a : Program Op ε α) Q s ↔ Q s a := Iff.rfl

theorem wpOk_await {op : Op ρ} {Q : σ → ρ → Prop} {s : σ} :
    wpOk allow next (await op : Program Op ε ρ) Q s ↔
      allow s op ∧ ∀ reply, Q (next s op reply) reply := Iff.rfl

theorem wpOk_bind {p : Program Op ε α} {f : α → Program Op ε β} {Q : σ → β → Prop} {s : σ} :
    wpOk allow next (p >>= f) Q s ↔
      wpOk allow next p (fun s a => wpOk allow next (f a) Q s) s := by
  show wpOk allow next (p.bind f) Q s ↔ _
  induction p generalizing s with
  | done a => exact Iff.rfl
  | raise e => exact Iff.rfl
  | call op k ih => simp only [Program.bind, wpOk, ih]

theorem wpOk_mono {p : Program Op ε α} {Q Q' : σ → α → Prop} {s : σ}
    (h : wpOk allow next p Q s) (himp : ∀ s a, Q s a → Q' s a) : wpOk allow next p Q' s := by
  induction p generalizing s with
  | done a => exact himp _ _ h
  | raise e => trivial
  | call op k ih => exact ⟨h.1, fun reply => ih _ (h.2 reply)⟩

/-- One program after another. -/
theorem wpOk_seq {p : Program Op ε α} {f : α → Program Op ε β} {Q : σ → α → Prop}
    {R : σ → β → Prop} {s : σ} (hp : wpOk allow next p Q s)
    (hf : ∀ s a, Q s a → wpOk allow next (f a) R s) : wpOk allow next (p >>= f) R s :=
  wpOk_bind.2 (wpOk_mono hp hf)

theorem wpOk_await_bind {op : Op ρ} {f : ρ → Program Op ε β} {Q : σ → β → Prop} {s : σ} :
    wpOk allow next (await op >>= f) Q s ↔
      allow s op ∧ ∀ reply, wpOk allow next (f reply) Q (next s op reply) := Iff.rfl

theorem wpOk_forM {f : β → Program Op ε PUnit} (I : List β → σ → Prop) {xs : List β} {s : σ}
    (hinit : I xs s)
    (hbody : ∀ x rest s, I (x :: rest) s → wpOk allow next (f x) (fun s _ => I rest s) s) :
    wpOk allow next (xs.forM f) (fun s _ => I [] s) s := by
  induction xs generalizing s with
  | nil => exact hinit
  | cons x xs ih =>
    rw [List.forM_eq_forM, List.forM_cons]
    exact wpOk_seq (hbody x xs s hinit) fun s _ hrest => ih hrest

end

/-! ## The calls a program makes -/

section

variable (p : ∀ {ρ}, Op ρ → Prop)

/-- Every call the program can come to satisfies `p`. -/
def Issues : Program Op ε α → Prop
  | .done _ => True
  | .raise _ => True
  | .call op k => p op ∧ ∀ reply, (k (.ok reply)).Issues

variable {p}

@[simp] theorem issues_pure (a : α) : Issues p (Pure.pure a : Program Op ε α) := trivial

@[simp] theorem issues_raise (e : ε) : Issues p (.raise e : Program Op ε α) := trivial

@[simp] theorem issues_await (op : Op ρ) : Issues p (await op : Program Op ε ρ) ↔ p op := by
  simp [await, Issues]

theorem issues_bind {q : Program Op ε α} {f : α → Program Op ε β} (hq : Issues p q)
    (hf : ∀ a, Issues p (f a)) : Issues p (q >>= f) := by
  show Issues p (q.bind f)
  induction q with
  | done a => exact hf a
  | raise e => trivial
  | call op k ih => exact ⟨hq.1, fun reply => ih _ (hq.2 reply)⟩

theorem issues_forM {f : β → Program Op ε PUnit} {xs : List β} (h : ∀ x ∈ xs, Issues p (f x)) :
    Issues p (xs.forM f) := by
  induction xs with
  | nil => trivial
  | cons x xs ih =>
    rw [List.forM_eq_forM, List.forM_cons]
    exact issues_bind (h x List.mem_cons_self) fun _ => ih fun y hy => h y (List.mem_cons_of_mem _ hy)

/-- An assertion every call of the program preserves. -/
theorem wlp_of_issues {step : σ → ∀ {ρ}, Op ρ → ρ → σ → Prop} {ok I : σ → Prop}
    (hstep : ∀ {ρ} (op : Op ρ) reply s s', p op → I s → step s op reply s' → ok s' ∧ I s') :
    ∀ {q : Program Op ε α} {s : σ}, Issues p q → I s → wlp step ok q (fun s _ => I s) s
  | .done _, _, _, hs => hs
  | .raise _, _, _, _ => trivial
  | .call op _, s, hq, hs => fun reply s' hcall =>
      have hnext := hstep op reply s s' hq.1 hs hcall
      ⟨hnext.1, wlp_of_issues hstep (hq.2 reply) hnext.2⟩

end

/-! ## Running alone -/

section

variable (perform : ∀ {ρ}, Op ρ → σ → ρ × σ)

/-- The program with nothing else running: each call is answered by `perform`. -/
def serial : Program Op ε α → σ → Except ε (α × σ)
  | .done a, s => .ok (a, s)
  | .raise e, _ => .error e
  | .call op k, s => (k (.ok (perform op s).1)).serial (perform op s).2

variable {perform}

@[simp] theorem serial_pure (a : α) (s : σ) :
    serial perform (Pure.pure a : Program Op ε α) s = .ok (a, s) := rfl

@[simp] theorem serial_raise (e : ε) (s : σ) :
    serial perform (.raise e : Program Op ε α) s = .error e := rfl

@[simp] theorem serial_await (op : Op ρ) (s : σ) :
    serial perform (await op : Program Op ε ρ) s = .ok (perform op s) := rfl

@[simp] theorem serial_bind (p : Program Op ε α) (f : α → Program Op ε β) (s : σ) :
    serial perform (p >>= f) s =
      match serial perform p s with
      | .ok (a, s) => serial perform (f a) s
      | .error e => .error e := by
  show serial perform (p.bind f) s = _
  induction p generalizing s with
  | done a => rfl
  | raise e => rfl
  | call op k ih => exact ih _ _

/-- What a sequence that returns went through. -/
theorem serial_bind_eq_ok {p : Program Op ε α} {f : α → Program Op ε β} {b : β} {s s' : σ}
    (h : serial perform (p >>= f) s = .ok (b, s')) :
    ∃ a mid, serial perform p s = .ok (a, mid) ∧ serial perform (f a) mid = .ok (b, s') := by
  rw [serial_bind] at h
  cases hp : serial perform p s with
  | error e => simp [hp] at h
  | ok result =>
    obtain ⟨a, mid⟩ := result
    rw [hp] at h
    exact ⟨a, mid, rfl, h⟩

/-- An assertion every call of the program preserves, when it runs alone. -/
theorem serial_of_issues {p : ∀ {ρ}, Op ρ → Prop} {I : σ → Prop}
    (hstep : ∀ {ρ} (op : Op ρ) s, p op → I s → I (perform op s).2) {q : Program Op ε α} {s s' : σ}
    {a : α} (hissues : Issues p q) (hs : I s) (h : q.serial perform s = .ok (a, s')) : I s' := by
  induction q generalizing s with
  | done b =>
    cases h
    exact hs
  | raise e => cases h
  | call op k ih => exact ih _ (hissues.2 _) (hstep op s hissues.1 hs) h

/-- The steps of a program that runs alone. -/
def Alone (perform : ∀ {ρ}, Op ρ → σ → ρ × σ) (s : σ) {ρ : Type} (op : Op ρ) (reply : ρ) (s' : σ) :
    Prop := (reply, s') = perform op s

theorem wlp_alone_await {op : Op ρ} {Q : σ → ρ → Prop} {s : σ}
    (h : Q (perform op s).2 (perform op s).1) :
    wlp (Alone perform) (fun _ => True) (await op : Program Op ε ρ) Q s := by
  intro reply s' hstep
  obtain ⟨rfl, rfl⟩ := Prod.mk.inj hstep
  exact ⟨trivial, h⟩

theorem serial_of_wlp_alone {q : Program Op ε α} {Q : σ → α → Prop} {s s' : σ} {a : α}
    (hwlp : wlp (Alone perform) (fun _ => True) q Q s) (h : q.serial perform s = .ok (a, s')) :
    Q s' a := by
  induction q generalizing s with
  | done b =>
    cases h
    exact hwlp
  | raise e => cases h
  | call op k ih => exact ih _ (hwlp _ _ rfl).2 h

/-- A loop of calls that return nothing is a fold over the state. -/
theorem serial_forM_await {f : β → Op PUnit} (xs : List β) (s : σ) :
    serial perform (xs.forM fun x => (await (f x) : Program Op ε PUnit)) s =
      .ok (⟨⟩, xs.foldl (fun s x => (perform (f x) s).2) s) := by
  induction xs generalizing s with
  | nil => rfl
  | cons x xs ih =>
    rw [List.forM_eq_forM, List.forM_cons, serial_bind, serial_await]
    exact ih _

end

end Program

/-! ## Runs of events -/

universe u v

variable {State : Type u} {Event : Type v} (step : State → Event → Option State)
  (ok : State → Event → Prop)

/-- The runs whose events all meet a condition on the state before them. -/
abbrev RunOf : State → State → Prop :=
  Relation.ReflTransGen fun s s' => ∃ event, ok s event ∧ step s event = some s'

/-- Performs the events, stopped by the first that does not meet the condition. -/
def runWhile [∀ s event, Decidable (ok s event)] (s : State) (events : List Event) : Option State :=
  events.foldlM (fun s event => if ok s event then step s event else none) s

theorem runOf_of_runWhile [∀ s event, Decidable (ok s event)] {events : List Event} {s s' : State}
    (h : runWhile step ok s events = some s') : RunOf step ok s s' := by
  induction events generalizing s with
  | nil =>
    cases h
    exact .refl
  | cons event events ih =>
    obtain ⟨mid, hstep, hrest⟩ := Option.bind_eq_some_iff.1 h
    by_cases hok : ok s event
    · simp only [hok, if_true] at hstep
      exact .head ⟨event, hok, hstep⟩ (ih hrest)
    · simp [hok] at hstep

end Effect
