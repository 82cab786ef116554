import Tableinator.Effect.Program

/-! # Traces of programs

An environment answers each call of a program, and the trace lists the calls with their
answers.  `wpWhen` is the weakest precondition for the environments whose answers are of
a known kind; what it allows holds of every call in a trace, at its place.  `interp`
replaces the calls of a program by programs over finer calls, and `handled` runs it
against a state that its calls read and change. -/

namespace Effect

variable {Op Op' : Type → Type} {ε α β ρ σ : Type}

/-- A call with its answer. -/
structure Entry (Op : Type → Type) (ε : Type) : Type 1 where
  {Reply : Type}
  op : Op Reply
  reply : Except ε Reply

def Entry.lift (f : ∀ {ρ}, Op ρ → Op' ρ) (entry : Entry Op ε) : Entry Op' ε :=
  ⟨f entry.op, entry.reply⟩

/-- The answer to a call may depend on what happened before. -/
abbrev Environment (Op : Type → Type) (ε : Type) :=
  List (Entry Op ε) → ∀ {ρ : Type}, Op ρ → Except ε ρ

/-! ## Answers -/

section

variable {P : Except ε ρ → Prop}

theorem forall_isOk : (∀ reply : Except ε ρ, reply.isOk = true → P reply) ↔ ∀ a, P (.ok a) := by
  constructor
  · exact fun h a => h (.ok a) rfl
  · intro h reply hok
    cases reply with
    | ok a => exact h a
    | error e => cases hok

theorem forall_except : (∀ reply : Except ε ρ, P reply) ↔
    (∀ a, P (.ok a)) ∧ ∀ e, P (.error e) := by
  constructor
  · exact fun h => ⟨fun a => h (.ok a), fun e => h (.error e)⟩
  · rintro ⟨hok, herror⟩ reply
    cases reply with
    | ok a => exact hok a
    | error e => exact herror e

end

namespace Program

/-- The outcome of a program and all that happened when it ends. -/
def trace (env : Environment Op ε) :
    Program Op ε α → List (Entry Op ε) → Except ε α × List (Entry Op ε)
  | .done a, past => (.ok a, past)
  | .raise e, past => (.error e, past)
  | .call op k, past => (k (env past op)).trace env (past ++ [⟨op, env past op⟩])

/-! ## Weakest preconditions for a kind of answers -/

section

variable (admits : ∀ {ρ}, Op ρ → Except ε ρ → Prop) (allow : σ → ∀ {ρ}, Op ρ → Prop)
  (next : σ → ∀ {ρ}, Op ρ → Except ε ρ → σ)

def wpWhen : Program Op ε α → (σ → Except ε α → Prop) → σ → Prop
  | .done a, Q, s => Q s (.ok a)
  | .raise e, Q, s => Q s (.error e)
  | .call op k, Q, s => allow s op ∧ ∀ r, admits op r → (k r).wpWhen Q (next s op r)

variable {admits allow next}

@[simp] theorem wpWhen_pure (a : α) (Q : σ → Except ε α → Prop) (s : σ) :
    wpWhen admits allow next (Pure.pure a : Program Op ε α) Q s ↔ Q s (.ok a) := Iff.rfl

@[simp] theorem wpWhen_raise (e : ε) (Q : σ → Except ε α → Prop) (s : σ) :
    wpWhen admits allow next (.raise e : Program Op ε α) Q s ↔ Q s (.error e) := Iff.rfl

@[simp] theorem wpWhen_await (op : Op ρ) (Q : σ → Except ε ρ → Prop) (s : σ) :
    wpWhen admits allow next (await op) Q s ↔
      allow s op ∧ ∀ r, admits op r → Q (next s op r) r := by
  simp only [await, wpWhen]
  refine and_congr_right fun _ => forall_congr' fun r => ?_
  cases r with
  | ok a => exact Iff.rfl
  | error e => exact Iff.rfl

@[simp] theorem wpWhen_bind (p : Program Op ε α) (f : α → Program Op ε β)
    (Q : σ → Except ε β → Prop) (s : σ) :
    wpWhen admits allow next (p >>= f) Q s ↔
      wpWhen admits allow next p (fun s r => match r with
        | .ok a => wpWhen admits allow next (f a) Q s
        | .error e => Q s (.error e)) s := by
  show wpWhen admits allow next (p.bind f) Q s ↔ _
  induction p generalizing s with
  | done a => exact Iff.rfl
  | raise e => exact Iff.rfl
  | call op k ih => simp only [Program.bind, wpWhen, ih]

@[simp] theorem wpWhen_tryCatch (p : Program Op ε α) (handler : ε → Program Op ε α)
    (Q : σ → Except ε α → Prop) (s : σ) :
    wpWhen admits allow next (p.tryCatch handler) Q s ↔
      wpWhen admits allow next p (fun s r => match r with
        | .ok a => Q s (.ok a)
        | .error e => wpWhen admits allow next (handler e) Q s) s := by
  induction p generalizing s with
  | done a => exact Iff.rfl
  | raise e => exact Iff.rfl
  | call op k ih => simp only [tryCatch, wpWhen, ih]

theorem wpWhen_mono {p : Program Op ε α} {Q Q' : σ → Except ε α → Prop} {s : σ}
    (h : wpWhen admits allow next p Q s) (himp : ∀ s r, Q s r → Q' s r) :
    wpWhen admits allow next p Q' s := by
  induction p generalizing s with
  | done a => exact himp _ _ h
  | raise e => exact himp _ _ h
  | call op k ih => exact ⟨h.1, fun r hr => ih r (h.2 r hr)⟩

/-- Calls that leave the state as it is need only be allowed there. -/
theorem wpWhen_lift {Op₀ : Type → Type} {f : ∀ {ρ}, Op₀ ρ → Op ρ} {p : Program Op₀ ε α}
    {Q : σ → Except ε α → Prop} {s : σ} (hp : p.Only fun op => allow s (f op))
    (hsame : ∀ {ρ} (op : Op₀ ρ) (r : Except ε ρ), next s (f op) r = s) (hQ : ∀ r, Q s r) :
    wpWhen admits allow next (p.lift f) Q s := by
  induction p with
  | done a => exact hQ _
  | raise e => exact hQ _
  | call op k ih =>
    refine ⟨hp.1, fun r _ => ?_⟩
    rw [hsame]
    exact ih r (hp.2 r)

/-- The state after the entries of a trace. -/
def after (next : σ → ∀ {ρ}, Op ρ → Except ε ρ → σ) (s : σ) (entries : List (Entry Op ε)) : σ :=
  entries.foldl (fun s entry => next s entry.op entry.reply) s

/-- Every call of a trace is allowed at its place, and the trace ends as the program may. -/
theorem trace_of_wpWhen {env : Environment Op ε} (henv : ∀ past {ρ} (op : Op ρ), admits op (env past op))
    {p : Program Op ε α} {Q : σ → Except ε α → Prop} {s : σ} {past : List (Entry Op ε)}
    (hwp : wpWhen admits allow next p Q s) :
    ∃ entries, (p.trace env past).2 = past ++ entries ∧
      Q (after next s entries) (p.trace env past).1 ∧
      ∀ before entry rest, entries = before ++ entry :: rest →
        allow (after next s before) entry.op := by
  induction p generalizing s past with
  | done a => exact ⟨[], by simp [trace], hwp, by simp⟩
  | raise e => exact ⟨[], by simp [trace], hwp, by simp⟩
  | call op k ih =>
    obtain ⟨entries, hpast, hend, hallowed⟩ :=
      @ih (env past op) _ (past ++ [⟨op, env past op⟩]) (hwp.2 _ (henv past op))
    refine ⟨⟨op, env past op⟩ :: entries, by simpa [trace] using hpast, hend, ?_⟩
    intro before entry rest hsplit
    cases before with
    | nil =>
      cases hsplit
      exact hwp.1
    | cons first before =>
      obtain ⟨rfl, hrest⟩ := List.cons.inj hsplit
      exact hallowed before entry rest hrest

end

/-- A loop of calls comes as far as the first one that fails. -/
theorem trace_forM (f : ∀ {ρ}, Op ρ → List β) (env : Environment Op ε) (ops : List (Op PUnit))
    (past : List (Entry Op ε)) :
    ∃ entries, ((ops.forM fun op => (await op : Program Op ε PUnit)).trace env past).2 =
        past ++ entries ∧
      entries.flatMap (fun entry => f entry.op) <+: ops.flatMap f := by
  induction ops generalizing past with
  | nil => exact ⟨[], (List.append_nil past).symm, List.nil_prefix⟩
  | cons op ops ih =>
    rw [List.forM_eq_forM, List.forM_cons]
    cases hreply : env past op with
    | error e =>
      refine ⟨[⟨op, .error e⟩], ?_, ?_⟩
      · simp [Bind.bind, Program.bind, await, trace, hreply]
      · simp
    | ok reply =>
      obtain ⟨entries, hpast, hinitial⟩ := ih (past ++ [⟨op, .ok reply⟩])
      refine ⟨⟨op, .ok reply⟩ :: entries, ?_, ?_⟩
      · rw [List.forM_eq_forM] at hpast
        generalize forM ops (fun op => (await op : Program Op ε PUnit)) = rest at hpast ⊢
        simpa [Bind.bind, Program.bind, await, trace, hreply] using hpast
      · simpa using hinitial

/-! ## Programs for calls -/

def interp (g : ∀ {ρ}, Op ρ → Program Op' ε ρ) : Program Op ε α → Program Op' ε α
  | .done a => .done a
  | .raise e => .raise e
  | .call op k => (g op).follow fun r => (k r).interp g

section

variable {g : ∀ {ρ}, Op ρ → Program Op' ε ρ}

@[simp] theorem interp_pure (a : α) : interp g (Pure.pure a : Program Op ε α) = Pure.pure a := rfl

@[simp] theorem interp_raise (e : ε) : interp g (.raise e : Program Op ε α) = .raise e := rfl

@[simp] theorem interp_ite (c : Prop) [Decidable c] (p q : Program Op ε α) :
    interp g (if c then p else q) = if c then interp g p else interp g q := by
  split <;> rfl

theorem follow_self (p : Program Op ε α) :
    (p.follow fun
      | .ok a => .done a
      | .error e => .raise e) = p := by
  induction p with
  | done a => rfl
  | raise e => rfl
  | call op k ih => exact congrArg (Program.call op) (funext ih)

theorem follow_bind (p : Program Op ε α) (f : Except ε α → Program Op ε β)
    {γ : Type} (f' : β → Program Op ε γ) :
    (p.follow f).bind f' = p.follow fun r => (f r).bind f' := by
  induction p with
  | done a => rfl
  | raise e => rfl
  | call op k ih => exact congrArg (Program.call op) (funext ih)

theorem follow_tryCatch (p : Program Op ε α) (f : Except ε α → Program Op ε β)
    (handler : ε → Program Op ε β) :
    (p.follow f).tryCatch handler = p.follow fun r => (f r).tryCatch handler := by
  induction p with
  | done a => rfl
  | raise e => rfl
  | call op k ih => exact congrArg (Program.call op) (funext ih)

@[simp] theorem interp_await (op : Op ρ) : interp g (await op : Program Op ε ρ) = g op := by
  refine Eq.trans (congrArg (g op).follow (funext fun r => ?_)) (follow_self (g op))
  cases r with
  | ok a => rfl
  | error e => rfl

@[simp] theorem interp_bind (p : Program Op ε α) (f : α → Program Op ε β) :
    interp g (p >>= f) = interp g p >>= fun a => interp g (f a) := by
  show interp g (p.bind f) = (interp g p).bind fun a => interp g (f a)
  induction p with
  | done a => rfl
  | raise e => rfl
  | call op k ih =>
    simp only [Program.bind, interp, follow_bind]
    exact congrArg (g op).follow (funext ih)

@[simp] theorem interp_tryCatch (p : Program Op ε α) (handler : ε → Program Op ε α) :
    interp g (p.tryCatch handler) = (interp g p).tryCatch fun e => interp g (handler e) := by
  induction p with
  | done a => rfl
  | raise e => rfl
  | call op k ih =>
    simp only [tryCatch, interp, follow_tryCatch]
    exact congrArg (g op).follow (funext ih)

@[simp] theorem interp_lift {Op₀ : Type → Type} (f : ∀ {ρ}, Op₀ ρ → Op ρ) (p : Program Op₀ ε α) :
    interp g (p.lift f) = interp (fun op => g (f op)) p := by
  induction p with
  | done a => rfl
  | raise e => rfl
  | call op k ih => exact congrArg (g (f op)).follow (funext ih)

end

/-! ## Renamed calls -/

section

variable {f : ∀ {ρ}, Op ρ → Op' ρ}

@[simp] theorem lift_pure (a : α) : lift f (Pure.pure a : Program Op ε α) = Pure.pure a := rfl

@[simp] theorem lift_raise (e : ε) : lift f (.raise e : Program Op ε α) = .raise e := rfl

@[simp] theorem lift_ite (c : Prop) [Decidable c] (p q : Program Op ε α) :
    lift f (if c then p else q) = if c then lift f p else lift f q := by
  split <;> rfl

@[simp] theorem lift_await (op : Op ρ) : lift f (await op : Program Op ε ρ) = await (f op) := by
  refine congrArg (Program.call (f op)) (funext fun r => ?_)
  cases r with
  | ok a => rfl
  | error e => rfl

@[simp] theorem lift_bind (p : Program Op ε α) (k : α → Program Op ε β) :
    lift f (p >>= k) = lift f p >>= fun a => lift f (k a) := by
  show lift f (p.bind k) = (lift f p).bind fun a => lift f (k a)
  induction p with
  | done a => rfl
  | raise e => rfl
  | call op k ih => exact congrArg (Program.call (f op)) (funext ih)

@[simp] theorem lift_tryCatch (p : Program Op ε α) (handler : ε → Program Op ε α) :
    lift f (p.tryCatch handler) = (lift f p).tryCatch fun e => lift f (handler e) := by
  induction p with
  | done a => rfl
  | raise e => rfl
  | call op k ih => exact congrArg (Program.call (f op)) (funext ih)

/-- A lifted program has the trace of the program, lifted. -/
theorem trace_lift (p : Program Op ε α) (env : Environment Op' ε) (past : List (Entry Op ε)) :
    (p.lift f).trace env (past.map (Entry.lift f)) =
      ((p.trace (fun past _ op => env (past.map (Entry.lift f)) (f op)) past).1,
        (p.trace (fun past _ op => env (past.map (Entry.lift f)) (f op)) past).2.map (Entry.lift f)) := by
  induction p generalizing past with
  | done a => rfl
  | raise e => rfl
  | call op k ih =>
    have hrest := ih (env (past.map (Entry.lift f)) (f op))
      (past ++ [⟨op, env (past.map (Entry.lift f)) (f op)⟩])
    rw [List.map_append] at hrest
    exact hrest

theorem wpWhen_lift_iff {admits : ∀ {ρ}, Op' ρ → Except ε ρ → Prop} {allow : σ → ∀ {ρ}, Op' ρ → Prop}
    {next : σ → ∀ {ρ}, Op' ρ → Except ε ρ → σ} (p : Program Op ε α) (Q : σ → Except ε α → Prop) (s : σ) :
    wpWhen admits allow next (p.lift f) Q s ↔ wpWhen (fun op => admits (f op))
      (fun s _ op => allow s (f op)) (fun s _ op r => next s (f op) r) p Q s := by
  induction p generalizing s with
  | done a => exact Iff.rfl
  | raise e => exact Iff.rfl
  | call op k ih => simp only [lift, wpWhen, ih]

end

/-- Calls that are allowed and leave the state as it is. -/
theorem wpWhen_of_only {admits : ∀ {ρ}, Op ρ → Except ε ρ → Prop} {allow : σ → ∀ {ρ}, Op ρ → Prop}
    {next : σ → ∀ {ρ}, Op ρ → Except ε ρ → σ} {p : ∀ {ρ}, Op ρ → Prop} {s : σ}
    (hstep : ∀ {ρ} (op : Op ρ), p op → allow s op ∧ ∀ r, next s op r = s) {q : Program Op ε α}
    (hq : q.Only p) : wpWhen admits allow next q (fun s' _ => s' = s) s := by
  induction q with
  | done a => rfl
  | raise e => rfl
  | call op k ih =>
    obtain ⟨hallow, hnext⟩ := hstep op hq.1
    refine ⟨hallow, fun r _ => ?_⟩
    rw [hnext r]
    exact ih r (hq.2 r)

theorem only_interp {g : ∀ {ρ}, Op ρ → Program Op' ε ρ} {p : ∀ {ρ}, Op' ρ → Prop}
    {q : Program Op ε α} (hg : q.Only fun op => (g op).Only p) : (interp g q).Only p := by
  induction q with
  | done a => trivial
  | raise e => trivial
  | call op k ih => exact only_follow hg.1 fun r => ih r (hg.2 r)

/-! ## Handled calls -/

/-- Runs the program where a state answers its calls. -/
def handled (handle : ∀ {ρ}, Op ρ → σ → Except ε ρ × σ) : Program Op ε α → σ → Except ε α × σ
  | .done a, s => (.ok a, s)
  | .raise e, s => (.error e, s)
  | .call op k, s => (k (handle op s).1).handled handle (handle op s).2

section

variable {handle : ∀ {ρ}, Op ρ → σ → Except ε ρ × σ}

@[simp] theorem handled_pure (a : α) (s : σ) :
    handled handle (Pure.pure a : Program Op ε α) s = (.ok a, s) := rfl

@[simp] theorem handled_raise (e : ε) (s : σ) :
    handled handle (.raise e : Program Op ε α) s = (.error e, s) := rfl

@[simp] theorem handled_await (op : Op ρ) (s : σ) :
    handled handle (await op : Program Op ε ρ) s = handle op s := by
  simp only [await, handled]
  cases hreply : handle op s with
  | mk reply s' => cases reply <;> rfl

@[simp] theorem handled_follow (p : Program Op ε α) (f : Except ε α → Program Op ε β) (s : σ) :
    handled handle (p.follow f) s = handled handle (f (handled handle p s).1) (handled handle p s).2 := by
  induction p generalizing s with
  | done a => rfl
  | raise e => rfl
  | call op k ih => exact ih _ _

theorem handled_bind (p : Program Op ε α) (f : α → Program Op ε β) (s : σ) :
    handled handle (p >>= f) s =
      match handled handle p s with
      | (.ok a, s') => handled handle (f a) s'
      | (.error e, s') => (.error e, s') := by
  show handled handle (p.bind f) s = _
  rw [bind_eq_follow, handled_follow]
  cases hp : handled handle p s with
  | mk reply s' => cases reply <;> rfl

end

end Program

end Effect
