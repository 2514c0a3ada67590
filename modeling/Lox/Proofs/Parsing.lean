import Lox.Proofs.Grammar
import Mathlib.Tactic.ByContra

/-!
# The parser reads the grammar

The parser keeps what is still open on a stack. `Waits` says which tokens a stack stands for, and
`Explains` which tokens a state stands for. Every step keeps `Explains`, so a tree that the parser
returns is derived. The other way round, the tokens of a derivation take the parser from a stack to
the same stack with frames on it that make up the derived tree.
-/

namespace Lox.Parse

open Grammar

/-! ## Closing frames -/

/-- An operator of this precedence closes the frame. -/
def Frame.ClosesAt (level : Nat) : Frame → Prop
  | .paren => False
  | .unary _ => True
  | .binary _ op => level ≤ op.kind.precedence

/-- An operator of this precedence leaves the stack as it is. -/
def Holds (level : Nat) (stack : List Frame) : Prop := ∀ f ∈ stack.head?, ¬ f.ClosesAt level

/-- The expression that some frames make of the operand on their right. -/
def plug : List Frame → Expr → Expr
  | [], e => e
  | .paren :: fs, e => plug fs e
  | .unary op :: fs, e => plug fs (.unary op e)
  | .binary left op :: fs, e => plug fs (.binary left op e)

theorem plug_append (fs gs : List Frame) (e : Expr) : plug (fs ++ gs) e = plug gs (plug fs e) := by
  induction fs generalizing e with
  | nil => rfl
  | cons f fs ih => cases f <;> simp [plug, ih]

theorem closesAt_of_le (f : Frame) (k l : Nat) (h : k ≤ l) (hf : f.ClosesAt l) : f.ClosesAt k := by
  cases f with
  | paren => exact hf
  | unary op => trivial
  | binary left op => exact Nat.le_trans h hf

theorem holds_of_le (stack : List Frame) (k l : Nat) (h : k ≤ l) (hs : Holds k stack) :
    Holds l stack :=
  fun f hf hl => hs f hf (closesAt_of_le f k l h hl)

theorem close_of_holds (level : Nat) (stack : List Frame) (e : Expr) (h : Holds level stack) :
    close level e stack = (e, stack) := by
  cases stack with
  | nil => rfl
  | cons f stack =>
    have hf := h f rfl
    cases f with
    | paren => rfl
    | unary op => exact absurd trivial hf
    | binary left op => exact if_neg hf

theorem close_append (level : Nat) (fs stack : List Frame) (e : Expr)
    (hfs : ∀ f ∈ fs, f.ClosesAt level) (hs : Holds level stack) :
    close level e (fs ++ stack) = (plug fs e, stack) := by
  induction fs generalizing e with
  | nil => exact close_of_holds level stack e hs
  | cons f fs ih =>
    have hf := hfs f List.mem_cons_self
    have hfs' : ∀ g ∈ fs, g.ClosesAt level := fun g hg => hfs g (List.mem_cons_of_mem _ hg)
    cases f with
    | paren => exact absurd hf id
    | unary op => rw [List.cons_append, close, ih _ hfs', plug]
    | binary left op =>
      have hle : level ≤ op.kind.precedence := hf
      rw [List.cons_append, close, if_pos hle, ih _ hfs', plug]

theorem close_holds (level : Nat) (stack : List Frame) (e : Expr) :
    Holds level (close level e stack).2 := by
  fun_induction close level e stack with
  | case1 e op stack ih => exact ih
  | case2 e left op stack h ih => exact ih
  | case3 e left op stack h =>
    intro f hf
    obtain rfl : Frame.binary left op = f := Option.some.inj hf
    exact h
  | case4 e stack hu hb =>
    intro f hf
    obtain ⟨outer, rfl⟩ := List.head?_eq_some_iff.mp hf
    cases f with
    | paren => exact id
    | unary op => exact absurd rfl (hu op outer)
    | binary left op => exact absurd rfl (hb left op outer)

theorem closeAll_eq (e : Expr) (stack : List Frame) :
    closeAll e stack = ((close 0 e stack).1, (close 0 e stack).2.tail?) := by
  fun_induction closeAll e stack with
  | case1 e => rfl
  | case2 e stack => rfl
  | case3 e op stack ih => rw [close, ih]
  | case4 e left op stack ih => rw [close, if_pos (Nat.zero_le _), ih]

theorem holds_paren (level : Nat) (stack : List Frame) : Holds level (.paren :: stack) := by
  intro f hf
  cases hf
  exact id

theorem holds_zero (stack : List Frame) (h : Holds 0 stack) :
    stack = [] ∨ ∃ outer, stack = .paren :: outer := by
  cases stack with
  | nil => exact Or.inl rfl
  | cons f stack =>
    have hf := h f rfl
    cases f with
    | paren => exact Or.inr ⟨stack, rfl⟩
    | unary op => exact absurd trivial hf
    | binary left op => exact absurd (Nat.zero_le _) hf

/-! ## Steps -/

theorem stepEnded_operator (stack : List Frame) (e : Expr) (t : Token)
    (h : t.kind.precedence ≠ 0) :
    stepEnded stack e t =
      .next (.due (.binary (close t.kind.precedence e stack).1 t ::
        (close t.kind.precedence e stack).2)) := by
  rw [stepEnded, if_pos h]

theorem stepEnded_of_close_nil (stack : List Frame) (e e' : Expr) (t : Token)
    (h : t.kind.precedence = 0) (hc : close 0 e stack = (e', [])) :
    stepEnded stack e t = .halt (.tree e') := by
  simp [stepEnded, h, closeAll_eq, hc]

theorem stepEnded_of_close_paren (stack outer : List Frame) (e e' : Expr) (t : Token)
    (h : t.kind.precedence = 0) (hc : close 0 e stack = (e', .paren :: outer)) :
    stepEnded stack e t =
      if t.kind = .rightParen then .next (.ended outer (.group e'))
      else .halt (.error .expectRightParen) := by
  simp [stepEnded, h, closeAll_eq, hc]

theorem stepDue_denotes (stack : List Frame) (t : Token) (v : Value) (h : Denotes t v) :
    stepDue stack t = .next (.ended stack (.literal v)) := by
  rcases h with ⟨hk, rfl⟩ | ⟨hk, rfl⟩ | ⟨hk, rfl⟩ | ⟨hk | hk, hv⟩
  · simp [stepDue, hk]
  · simp [stepDue, hk]
  · simp [stepDue, hk]
  · simp [stepDue, hk, hv]
  · simp [stepDue, hk, hv]

theorem stepDue_unary (stack : List Frame) (t : Token) (h : t.kind ∈ unaryOperators) :
    stepDue stack t = .next (.due (.unary t :: stack)) := by
  simp only [unaryOperators, List.mem_cons, List.not_mem_nil, or_false] at h
  rcases h with h | h <;> simp [stepDue, h]

theorem stepDue_cases (stack : List Frame) (t : Token) :
    (t.kind ∈ unaryOperators ∧ stepDue stack t = .next (.due (.unary t :: stack))) ∨
    (t.kind = .leftParen ∧ stepDue stack t = .next (.due (.paren :: stack))) ∨
    (∃ v, Denotes t v ∧ stepDue stack t = .next (.ended stack (.literal v))) ∨
    ((t.kind = .number ∨ t.kind = .string) ∧ t.literal = none ∧
      stepDue stack t = .halt .noLiteral) ∨
    stepDue stack t = .halt (.error .expectExpression) := by
  cases hk : t.kind with
  | number | string =>
    cases hv : t.literal <;> simp [stepDue, hk, hv, Denotes, unaryOperators]
  | keyword w => cases w <;> simp [stepDue, hk, Denotes, unaryOperators]
  | _ => simp [stepDue, hk, Denotes, unaryOperators]

theorem stepEnded_cases (stack : List Frame) (e : Expr) (t : Token) :
    (t.kind.precedence ≠ 0 ∧ stepEnded stack e t =
      .next (.due (.binary (close t.kind.precedence e stack).1 t ::
        (close t.kind.precedence e stack).2))) ∨
    (∃ e', t.kind.precedence = 0 ∧ close 0 e stack = (e', []) ∧
      stepEnded stack e t = .halt (.tree e')) ∨
    (∃ e' outer, t.kind = .rightParen ∧ close 0 e stack = (e', .paren :: outer) ∧
      stepEnded stack e t = .next (.ended outer (.group e'))) ∨
    (∃ e' outer, t.kind.precedence = 0 ∧ t.kind ≠ .rightParen ∧
      close 0 e stack = (e', .paren :: outer) ∧
      stepEnded stack e t = .halt (.error .expectRightParen)) := by
  by_cases hp : t.kind.precedence = 0
  · obtain ⟨e', stack', hc⟩ : ∃ e' stack', close 0 e stack = (e', stack') := ⟨_, _, rfl⟩
    have hz := holds_zero _ (close_holds 0 stack e)
    rw [hc] at hz
    rcases hz with rfl | ⟨outer, rfl⟩
    · exact Or.inr (Or.inl ⟨e', hp, hc, stepEnded_of_close_nil stack e e' t hp hc⟩)
    · have hstep := stepEnded_of_close_paren stack outer e e' t hp hc
      by_cases hr : t.kind = .rightParen
      · rw [if_pos hr] at hstep
        exact Or.inr (Or.inr (Or.inl ⟨e', outer, hr, hc, hstep⟩))
      · rw [if_neg hr] at hstep
        exact Or.inr (Or.inr (Or.inr ⟨e', outer, hp, hr, hc, hstep⟩))
  · exact Or.inl ⟨hp, stepEnded_operator stack e t hp⟩

/-! ## Every step keeps a derivation -/

/-- The tokens that led to a stack. A frame with an operator of two operands stands on a stack that
this operator could not close any further. -/
inductive Waits : List Frame → List Token → Prop
  | nil : Waits [] []
  | paren (stack : List Frame) (ts : List Token) (t : Token) (hs : Waits stack ts)
      (ht : t.kind = .leftParen) : Waits (.paren :: stack) (ts ++ [t])
  | unary (stack : List Frame) (ts : List Token) (op : Token) (hs : Waits stack ts)
      (hop : op.kind ∈ unaryOperators) : Waits (.unary op :: stack) (ts ++ [op])
  | binary (stack : List Frame) (ts us : List Token) (r : Rule) (left : Expr) (op : Token)
      (hs : Waits stack ts) (hh : Holds r.rank stack) (hl : Derives r us left)
      (hop : op.kind ∈ r.operators) : Waits (.binary left op :: stack) (ts ++ us ++ [op])

theorem waits_paren (outer : List Frame) (ts : List Token) (h : Waits (.paren :: outer) ts) :
    ∃ os l, ts = os ++ [l] ∧ Waits outer os ∧ l.kind = .leftParen := by
  cases h with
  | paren _ os l ho hl => exact ⟨os, l, rfl, ho, hl⟩

/-- The tokens that led to a state. -/
def Explains (read : List Token) : State → Prop
  | .due stack => Waits stack read
  | .ended stack e => ∃ ts us, read = ts ++ us ∧ Waits stack ts ∧ Derives .primary us e

theorem close_derives (level : Nat) (stack : List Frame) (ts us : List Token) (r : Rule) (e : Expr)
    (hlevel : level ≤ 4) (hw : Waits stack ts) (he : Derives r us e)
    (hh : r.rank ≤ 4 → Holds r.rank stack) (hr : level ≤ r.rank) :
    ∃ r' ts' us', ts ++ us = ts' ++ us' ∧ Waits (close level e stack).2 ts' ∧
      Derives r' us' (close level e stack).1 ∧ level ≤ r'.rank := by
  induction hw generalizing us r e with
  | nil => exact ⟨r, [], us, rfl, .nil, he, hr⟩
  | paren stack ts t hs ht => exact ⟨r, _, us, rfl, .paren stack ts t hs ht, he, hr⟩
  | unary stack ts op hs hop ih =>
    -- An operand looser than this would have closed the frame before, against `hh`.
    have h5 : 5 ≤ r.rank := by
      by_contra h
      exact hh (by omega) _ rfl trivial
    have he' := derives_of_rank_le r .unary us e h5 he
    obtain ⟨r', ts', us', heq, hw', hd, hl⟩ :=
      ih (op :: us) .unary (.unary op e) (.unary op us e hop he')
        (fun h => absurd h (by simp [Rule.rank])) (by simp [Rule.rank]; omega)
    refine ⟨r', ts', us', ?_, hw', hd, hl⟩
    rw [← heq, List.append_assoc, List.singleton_append]
  | binary stack ts ls s left op hs hstack hleft hop ih =>
    have hprec := (mem_operators_iff s op.kind).mp hop
    by_cases hle : level ≤ op.kind.precedence
    · have h4 := precedence_le_four op.kind
      have hrank := rank_operand_of_lt s (by omega)
      have hlt : s.operand.rank ≤ r.rank := by
        by_contra h
        exact hh (by omega) _ rfl (show r.rank ≤ op.kind.precedence by omega)
      have he' := derives_of_rank_le r s.operand us e hlt he
      obtain ⟨r', ts', us', heq, hw', hd, hl⟩ :=
        ih (ls ++ op :: us) s (.binary left op e) (.binary s ls us left e op hleft hop he')
          (fun _ => hstack) (by omega)
      rw [close, if_pos hle]
      refine ⟨r', ts', us', ?_, hw', hd, hl⟩
      rw [← heq]
      simp
    · rw [close, if_neg hle]
      exact ⟨r, _, us, rfl, .binary stack ts ls s left op hs hstack hleft hop, he, hr⟩

theorem close_zero_derives (stack : List Frame) (ts us : List Token) (e : Expr)
    (hw : Waits stack ts) (he : Derives .primary us e) :
    ∃ ts' us', ts ++ us = ts' ++ us' ∧ Waits (close 0 e stack).2 ts' ∧
      Derives .equality us' (close 0 e stack).1 := by
  obtain ⟨r, ts', us', heq, hw', hd, -⟩ :=
    close_derives 0 stack ts us .primary e (by omega) hw he
      (fun h => absurd h (by simp [Rule.rank])) (by omega)
  exact ⟨ts', us', heq, hw', derives_of_rank_le r .equality us' _ (one_le_rank r) hd⟩

theorem step_explains (read : List Token) (s s' : State) (t : Token) (hs : Explains read s)
    (h : step s t = .next s') : Explains (read ++ [t]) s' := by
  cases s with
  | due stack =>
    rcases stepDue_cases stack t with ⟨hk, hstep⟩ | ⟨hk, hstep⟩ | ⟨v, hv, hstep⟩ |
      ⟨-, -, hstep⟩ | hstep
    all_goals rw [step, hstep] at h
    · cases h
      exact .unary stack read t hs hk
    · cases h
      exact .paren stack read t hs hk
    · cases h
      exact ⟨read, [t], rfl, hs, .literal t v hv⟩
    · simp at h
    · simp at h
  | ended stack e =>
    obtain ⟨ts, us, rfl, hw, he⟩ := hs
    rcases stepEnded_cases stack e t with ⟨hp, hstep⟩ | ⟨e', -, -, hstep⟩ |
      ⟨e', outer, hk, hc, hstep⟩ | ⟨e', outer, -, -, -, hstep⟩
    all_goals rw [step, hstep] at h
    · cases h
      obtain ⟨r, hr⟩ := exists_rule_of_precedence t.kind hp
      have h4 := precedence_le_four t.kind
      obtain ⟨r', ts', us', heq, hw', hd, hl⟩ :=
        close_derives t.kind.precedence stack ts us .primary e h4 hw he
          (fun h => absurd h (by simp [Rule.rank])) (by simp [Rule.rank]; omega)
      have hd' := derives_of_rank_le r' r us' _ (by omega) hd
      have hh := close_holds t.kind.precedence stack e
      rw [← hr] at hh hw' hd' ⊢
      rw [heq]
      exact .binary _ ts' us' r _ t hw' hh hd' ((mem_operators_iff r t.kind).mpr hr.symm)
    · simp at h
    · cases h
      obtain ⟨ts', us', heq, hw', hd⟩ := close_zero_derives stack ts us e hw he
      rw [hc] at hw' hd
      obtain ⟨os, l, rfl, ho, hl⟩ := waits_paren outer ts' hw'
      refine ⟨os, l :: us' ++ [t], ?_, ho, .group l t us' e' hl hd hk⟩
      rw [heq]
      simp
    · simp at h

theorem halt_tree (read : List Token) (s : State) (t : Token) (e : Expr) (hs : Explains read s)
    (h : step s t = .halt (.tree e)) : Derives .equality read e ∧ t.kind ∉ binaryOperators := by
  cases s with
  | due stack =>
    rcases stepDue_cases stack t with ⟨-, hstep⟩ | ⟨-, hstep⟩ | ⟨v, -, hstep⟩ | ⟨-, -, hstep⟩ | hstep
    all_goals simp [step, hstep] at h
  | ended stack e₀ =>
    obtain ⟨ts, us, rfl, hw, he⟩ := hs
    rcases stepEnded_cases stack e₀ t with ⟨-, hstep⟩ | ⟨e', hp, hc, hstep⟩ | ⟨e', outer, -, -, hstep⟩ |
      ⟨e', outer, -, -, -, hstep⟩
    all_goals simp only [step, hstep, reduceCtorEq, Step.halt.injEq, Verdict.tree.injEq] at h
    subst h
    obtain ⟨ts', us', heq, hw', hd⟩ := close_zero_derives stack ts us e₀ hw he
    rw [hc] at hw' hd
    cases hw'
    rw [heq]
    exact ⟨hd, (not_mem_binaryOperators_iff t.kind).mpr hp⟩

theorem run_explains (read : List Token) (s : State) (ts rest : List Token) (v : Option Verdict)
    (hs : Explains read s) (h : run s ts = (v, rest)) :
    ∃ us s', ts = us ++ rest ∧ Explains (read ++ us) s' ∧
      (v = none ∧ rest = [] ∨
        ∃ t rest' verdict, rest = t :: rest' ∧ v = some verdict ∧ step s' t = .halt verdict) := by
  induction ts generalizing read s with
  | nil =>
    simp only [run, Prod.mk.injEq] at h
    obtain ⟨rfl, rfl⟩ := h
    exact ⟨[], s, rfl, by simpa using hs, Or.inl ⟨rfl, rfl⟩⟩
  | cons t ts ih =>
    rw [run] at h
    split at h
    · rename_i s' hstep
      obtain ⟨us, s'', rfl, hs'', hv⟩ := ih (read ++ [t]) s' (step_explains read s s' t hs hstep) h
      exact ⟨t :: us, s'', rfl, by simpa using hs'', hv⟩
    · rename_i verdict hstep
      simp only [Prod.mk.injEq] at h
      obtain ⟨rfl, rfl⟩ := h
      exact ⟨[], s, rfl, by simpa using hs, Or.inr ⟨t, ts, verdict, rfl, rfl, hstep⟩⟩

theorem run_tree_derives (ts rest : List Token) (e : Expr)
    (h : run (.due []) ts = (some (.tree e), rest)) :
    ∃ us t rest', ts = us ++ rest ∧ rest = t :: rest' ∧ Derives .equality us e ∧
      t.kind ∉ binaryOperators := by
  obtain ⟨us, s, heq, hs, hv⟩ := run_explains [] (.due []) ts rest _ .nil h
  rcases hv with ⟨hv, -⟩ | ⟨t, rest', verdict, hrest, hv, hstep⟩
  · simp at hv
  · cases hv
    obtain ⟨hd, hk⟩ := halt_tree us s t e (by simpa using hs) hstep
    exact ⟨us, t, rest', heq, hrest, hd, hk⟩

/-! ## Every derivation is read -/

theorem run_next (s s' : State) (t : Token) (ts : List Token) (h : step s t = .next s') :
    run s (t :: ts) = run s' ts := by
  rw [run, h]

theorem close_zero_append (fs stack : List Frame) (e : Expr) (hfs : ∀ f ∈ fs, f.ClosesAt 1)
    (hs : Holds 0 stack) : close 0 e (fs ++ stack) = (plug fs e, stack) := by
  apply close_append 0 fs stack e
  · intro f hf
    exact closesAt_of_le f 0 1 (by omega) (hfs f hf)
  · exact hs

/-- The tokens of a derivation leave the stack below them alone, and the frames that they put on it
make up the derived tree. -/
theorem run_derives (r : Rule) (ts : List Token) (e : Expr) (h : Derives r ts e)
    (stack : List Frame) (rest : List Token) (hh : r.rank ≤ 4 → Holds r.rank stack) :
    ∃ fs e₀, run (.due stack) (ts ++ rest) = run (.ended (fs ++ stack) e₀) rest ∧
      plug fs e₀ = e ∧ ∀ f ∈ fs, f.ClosesAt r.rank := by
  induction h generalizing stack rest with
  | literal t v h =>
    refine ⟨[], .literal v, ?_, rfl, by simp⟩
    exact run_next _ _ t rest (stepDue_denotes stack t v h)
  | group l r ts e hl he hr ih =>
    have hstep : step (.due stack) l = .next (.due (.paren :: stack)) := by
      simp [step, stepDue, hl]
    obtain ⟨fs, e₀, hrun, hplug, hfs⟩ := ih (.paren :: stack) (r :: rest)
      (fun _ => holds_paren _ stack)
    have hclose := close_zero_append fs (.paren :: stack) e₀ hfs (holds_paren 0 stack)
    rw [hplug] at hclose
    have hend := stepEnded_of_close_paren _ stack e₀ e r (by simp [hr, Kind.precedence]) hclose
    rw [if_pos hr] at hend
    refine ⟨[], .group e, ?_, rfl, by simp⟩
    rw [List.cons_append, List.cons_append, run_next _ _ _ _ hstep, List.append_assoc,
      List.singleton_append, hrun, run_next (.ended _ e₀) _ _ _ hend, List.nil_append]
  | unary op ts e hop he ih =>
    obtain ⟨fs, e₀, hrun, hplug, hfs⟩ := ih (.unary op :: stack) rest
      (fun h => absurd h (by simp [Rule.rank]))
    refine ⟨fs ++ [.unary op], e₀, ?_, ?_, ?_⟩
    · rw [List.cons_append, run_next (.due stack) _ _ _ (stepDue_unary stack op hop), hrun,
        List.append_assoc]
      rfl
    · rw [plug_append, hplug]
      rfl
    · intro f hf
      rcases List.mem_append.mp hf with hf | hf
      · exact hfs f hf
      · rw [List.mem_singleton.mp hf]
        trivial
  | operand r ts e he ih =>
    have hle := rank_le_operand r
    obtain ⟨fs, e₀, hrun, hplug, hfs⟩ := ih stack rest
      (fun h => holds_of_le stack _ _ hle (hh (by omega)))
    exact ⟨fs, e₀, hrun, hplug, fun f hf => closesAt_of_le f _ _ hle (hfs f hf)⟩
  | binary r ts us left right op hl hop hr ihl ihr =>
    have hprec := (mem_operators_iff r op.kind).mp hop
    have h4 := precedence_le_four op.kind
    have hrank := rank_operand_of_lt r (by omega)
    obtain ⟨fs, e₀, hrun, hplug, hfs⟩ := ihl stack (op :: us ++ rest) hh
    -- The operator closes what its left operand has left open, and nothing below that.
    have hclose := close_append r.rank fs stack e₀ hfs (hh (by omega))
    have hstep := stepEnded_operator (fs ++ stack) e₀ op (by have := one_le_rank r; omega)
    rw [hprec, hclose, hplug] at hstep
    obtain ⟨gs, e₁, hrun', hplug', hgs⟩ := ihr (.binary left op :: stack) rest (by
      intro _ f hf
      cases hf
      exact fun h => absurd h (by simp only [Frame.ClosesAt]; omega))
    refine ⟨gs ++ [.binary left op], e₁, ?_, ?_, ?_⟩
    · rw [List.append_assoc, hrun, List.cons_append, run_next (.ended _ e₀) _ _ _ hstep, hrun',
        List.append_assoc]
      rfl
    · rw [plug_append, hplug']
      rfl
    · intro f hf
      rcases List.mem_append.mp hf with hf | hf
      · exact closesAt_of_le f _ _ (by omega) (hgs f hf)
      · rw [List.mem_singleton.mp hf]
        exact Nat.le_of_eq hprec.symm

theorem derives_run_tree (us rest : List Token) (t : Token) (e : Expr)
    (h : Derives .equality us e) (ht : t.kind ∉ binaryOperators) :
    run (.due []) (us ++ t :: rest) = (some (.tree e), t :: rest) := by
  obtain ⟨fs, e₀, hrun, hplug, hfs⟩ := run_derives .equality us e h [] (t :: rest)
    (fun _ f hf => by cases hf)
  have hclose := close_zero_append fs [] e₀ hfs (fun f hf => by cases hf)
  rw [hplug] at hclose
  have hp := (not_mem_binaryOperators_iff t.kind).mp ht
  rw [hrun, run, step, stepEnded_of_close_nil _ e₀ e t hp hclose]

end Lox.Parse

namespace Lox.Parser

open Grammar Parse

/-! ## Cursors -/

/-- The tokens from `i` up to `j` are an expression with this tree, and the token at `j` is no
operator that could continue it. -/
def Reads (ts : List Token) (i j : Nat) (e : Expr) : Prop :=
  Derives .equality (ts.extract i j) e ∧ ∃ t, ts[j]? = some t ∧ t.kind ∉ binaryOperators

theorem reads_iff (ts : List Token) (i j : Nat) (e : Expr) :
    Reads ts i j e ↔ ∃ us t rest, ts.drop i = us ++ t :: rest ∧ j = i + us.length ∧
      Derives .equality us e ∧ t.kind ∉ binaryOperators := by
  constructor
  · rintro ⟨hd, t, ht, hk⟩
    obtain ⟨hj, rfl⟩ := List.getElem?_eq_some_iff.mp ht
    have hij : i ≤ j := by
      by_contra h
      have hnil : ts.extract i j = [] := by
        rw [List.extract_eq_take_drop, Nat.sub_eq_zero_of_le (by omega), List.take_zero]
      exact derives_ne_nil _ _ _ hd hnil
    refine ⟨ts.extract i j, ts[j], ts.drop (j + 1), ?_, ?_, hd, hk⟩
    · rw [List.extract_eq_take_drop, ← List.drop_eq_getElem_cons hj]
      conv_rhs => rw [show j = i + (j - i) by omega, ← List.drop_drop]
      rw [show i + (j - i) - i = j - i by omega, List.take_append_drop]
    · simp
      omega
  · rintro ⟨us, t, rest, hdrop, rfl, hd, hk⟩
    refine ⟨?_, t, ?_, hk⟩
    · rw [List.extract_eq_take_drop, hdrop, Nat.add_sub_cancel_left, List.take_left]
      exact hd
    · rw [← List.getElem?_drop, hdrop, List.getElem?_append_right (Nat.le_refl _), Nat.sub_self]
      rfl

theorem moveTo_of_drop (ts us rest : List Token) (i : Nat) (h : ts.drop i = us ++ rest)
    (hne : rest ≠ []) : moveTo ⟨ts, i⟩ rest = ⟨ts, i + us.length⟩ := by
  have hlen := congrArg List.length h
  have hpos := List.length_pos_iff.mpr hne
  rw [List.length_drop, List.length_append] at hlen
  simp only [moveTo, mk.injEq, true_and]
  omega

theorem expression_eq_ok_iff (ts : List Token) (i j : Nat) (e : Expr) :
    expression ⟨ts, i⟩ = (.ok (.ok e), ⟨ts, j⟩) ↔ Reads ts i j e := by
  rw [reads_iff]
  constructor
  · intro h
    obtain ⟨v, rest, hrun⟩ : ∃ v rest, run (.due []) (ts.drop i) = (v, rest) := ⟨_, _, rfl⟩
    simp only [expression, Parser.rest, hrun] at h
    split at h
    · obtain ⟨us, t, rest', heq, rfl, hd, hk⟩ := run_tree_derives _ _ _ hrun
      rw [moveTo_of_drop ts us _ i heq (by simp)] at h
      simp only [Prod.mk.injEq, Except.ok.injEq, mk.injEq, true_and] at h
      obtain ⟨rfl, rfl⟩ := h
      exact ⟨us, t, rest', heq, rfl, hd, hk⟩
    all_goals simp at h
  · rintro ⟨us, t, rest, hdrop, rfl, hd, hk⟩
    have hrun := derives_run_tree us rest t e hd hk
    simp only [expression, Parser.rest, hdrop, hrun]
    rw [moveTo_of_drop ts us (t :: rest) i hdrop (by simp)]

/-- **The parser reads the grammar.** From any cursor, an expression is read up to `j` exactly when
the tokens before `j` derive its tree and the token at `j` does not continue them. There is at most
one such `j`, and one such tree. -/
theorem expression_reads_grammar (ts : List Token) (i : Nat) :
    (∀ j e, expression ⟨ts, i⟩ = (.ok (.ok e), ⟨ts, j⟩) ↔ Reads ts i j e) ∧
      ∀ j j' e e', Reads ts i j e → Reads ts i j' e' → j = j' ∧ e = e' := by
  refine ⟨expression_eq_ok_iff ts i, ?_⟩
  intro j j' e e' h h'
  rw [← expression_eq_ok_iff] at h h'
  rw [h] at h'
  simp only [Prod.mk.injEq, Except.ok.injEq, mk.injEq, true_and] at h'
  exact ⟨h'.2, h'.1⟩

end Lox.Parser
