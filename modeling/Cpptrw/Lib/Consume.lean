import Cpptrw.Lib.Prog

/-!
# Incremental consumers

A consumer takes a stream apart item by item. Each item is consumed, consumed
as the last one, or left alone because the consumer had to see it to know that
it was done. A settled consumer takes nothing more. Under these two laws the
way a stream is cut into pieces does not matter (`consume_append`,
`consumeChunks_eq`), and an invariant that speaks of the items consumed so far
is carried along by `ensures_consume`.
-/

namespace Cpptrw.Lib

/-- What became of one item. -/
inductive Verdict (σ : Type) where
  | advance (s : σ)
  | finish (s : σ)
  | stop (s : σ)

variable {P : Platform} {σ ι : Type}

/-- The state an item led to is settled, unless more is asked for. -/
def Verdict.Settles (Settled : σ → Prop) : Verdict σ → Prop
  | .advance _ => True
  | .finish s => Settled s
  | .stop s => Settled s

/-- `Inv` after the items consumed so far, where `seen` came before `item`. -/
def Verdict.Keeps (Inv : List ι → σ → Prop) (seen : List ι) (item : ι) : Verdict σ → Prop
  | .advance s => Inv (seen ++ [item]) s
  | .finish s => Inv (seen ++ [item]) s
  | .stop s => Inv seen s

/-- Feed the items one by one; the value counts the consumed ones. -/
def consume (step : σ → ι → Prog P (Verdict σ)) : σ → List ι → Prog P (σ × Nat)
  | s, [] => pure (s, 0)
  | s, item :: rest => step s item >>= fun
    | .advance s' => consume step s' rest >>= fun r => pure (r.1, r.2 + 1)
    | .finish s' => pure (s', 1)
    | .stop s' => pure (s', 0)

/-- What comes behind the first item. -/
def Verdict.goOn (step : σ → ι → Prog P (Verdict σ)) (rest : List ι) : Verdict σ → Prog P (σ × Nat)
  | .advance s => consume step s rest >>= fun r => pure (r.1, r.2 + 1)
  | .finish s => pure (s, 1)
  | .stop s => pure (s, 0)

theorem consume_cons (step : σ → ι → Prog P (Verdict σ)) (s : σ) (item : ι) (rest : List ι) :
    consume step s (item :: rest) = step s item >>= Verdict.goOn step rest := by
  rw [consume]
  rfl

/-- Feed a stream that arrives in pieces. -/
def consumeChunks (step : σ → ι → Prog P (Verdict σ)) : σ → List (List ι) → Prog P (σ × Nat)
  | s, [] => pure (s, 0)
  | s, chunk :: chunks => consume step s chunk >>= fun r =>
      consumeChunks step r.1 chunks >>= fun r' => pure (r'.1, r.2 + r'.2)

/-- The laws of a consumer: a settled one leaves every item alone, and the
consumer settles when it does not ask for more. -/
structure Settling (step : σ → ι → Prog P (Verdict σ)) (Settled : σ → Prop) : Prop where
  absorbs : ∀ s, Settled s → ∀ item, step s item = pure (.stop s)
  settles : ∀ s item, Prog.Returns (step s item) (Verdict.Settles Settled)

namespace Settling

variable {step : σ → ι → Prog P (Verdict σ)} {Settled : σ → Prop}

theorem consume_settled (law : Settling step Settled) {s : σ} (h : Settled s) (items : List ι) :
    consume step s items = pure (s, 0) := by
  cases items with
  | nil => rfl
  | cons item rest => rw [consume, law.absorbs s h, pure_bind]

/-- **A cut anywhere is invisible.** -/
theorem consume_append (law : Settling step Settled) (s : σ) (xs ys : List ι) :
    consume step s (xs ++ ys) = consume step s xs >>= fun r =>
      consume step r.1 ys >>= fun r' => pure (r'.1, r.2 + r'.2) := by
  induction xs generalizing s with
  | nil => simp [consume]
  | cons x xs ih =>
    simp only [List.cons_append, consume, bind_assoc]
    refine (law.settles s x).bind_congr fun v hv => ?_
    cases v with
    | advance s' =>
      simp only [ih s', bind_assoc, pure_bind]
      congr 1
      funext r
      congr 1
      funext r'
      rw [Nat.add_right_comm]
    | finish s' => simp [law.consume_settled hv]
    | stop s' => simp [law.consume_settled hv]

theorem consumeChunks_eq (law : Settling step Settled) (s : σ) (chunks : List (List ι)) :
    consumeChunks step s chunks = consume step s chunks.flatten := by
  induction chunks generalizing s with
  | nil => rfl
  | cons chunk chunks ih =>
    rw [consumeChunks, List.flatten_cons, law.consume_append]
    simp only [ih]

end Settling

/-- Whatever a run returns: no more than everything was consumed, and less only by a settled consumer. -/
theorem Settling.returns_consume {step : σ → ι → Prog P (Verdict σ)} {Settled : σ → Prop} (law : Settling step Settled) :
    ∀ items s, Prog.Returns (consume step s items) fun r => r.2 ≤ items.length ∧ (r.2 < items.length → Settled r.1) := by
  intro items
  induction items with
  | nil =>
    intro s
    exact Prog.returns_pure ⟨Nat.le_refl _, fun short => absurd short (Nat.lt_irrefl _)⟩
  | cons item rest ih =>
    intro s
    rw [consume_cons]
    refine (law.settles s item).bind fun v settled => ?_
    cases v with
    | advance s' =>
      refine (ih s').bind fun r h => Prog.returns_pure ?_
      exact ⟨Nat.succ_le_succ h.1, fun short => h.2 (Nat.lt_of_succ_lt_succ short)⟩
    | finish s' => exact Prog.returns_pure ⟨Nat.le_add_left _ _, fun _ => settled⟩
    | stop s' => exact Prog.returns_pure ⟨Nat.zero_le _, fun _ => settled⟩

/-- An item that is advanced over is counted. -/
theorem returns_consume_advance {step : σ → ι → Prog P (Verdict σ)} {s s' : σ} {item : ι}
    (advance : step s item = pure (.advance s')) (rest : List ι) :
    Prog.Returns (consume step s (item :: rest)) fun r => 1 ≤ r.2 := by
  rw [consume_cons, advance, pure_bind]
  exact (Prog.returns_any _).bind fun r _ => Prog.returns_pure (Nat.le_add_left 1 r.2)

/-- The invariant rule: `Inv seen s` relates a state to the items consumed on
the way to it. -/
theorem Settling.ensures_consume {step : σ → ι → Prog P (Verdict σ)} {Settled : σ → Prop} {Inv : List ι → σ → Prop}
    (law : Settling step Settled)
    (keeps : ∀ seen s item, Inv seen s → Prog.Ensures (step s item) (Verdict.Keeps Inv seen item)) :
    ∀ items seen s, Inv seen s → Prog.Ensures (consume step s items) fun r =>
      r.2 ≤ items.length ∧ Inv (seen ++ items.take r.2) r.1 ∧ (r.2 < items.length → Settled r.1) := by
  intro items
  induction items with
  | nil =>
    intro seen s h
    exact .pure ⟨Nat.le_refl _, by simpa using h, fun short => absurd short (Nat.lt_irrefl _)⟩
  | cons item rest ih =>
    intro seen s h
    refine ((keeps seen s item h).and_returns (law.settles s item)).bind fun v hv => ?_
    obtain ⟨kept, settled⟩ := hv
    cases v with
    | advance s' =>
      refine (ih (seen ++ [item]) s' kept).bind fun r hr => .pure ?_
      obtain ⟨bound, inv, settled⟩ := hr
      refine ⟨Nat.succ_le_succ bound, ?_, fun short => settled (Nat.lt_of_succ_lt_succ short)⟩
      simpa [List.append_assoc] using inv
    | finish s' => exact .pure ⟨by simp, by simpa [Verdict.Keeps] using kept, fun _ => settled⟩
    | stop s' => exact .pure ⟨by simp, by simpa [Verdict.Keeps] using kept, fun _ => settled⟩

theorem compositional_consume {C : (α : Type) → Prog P α → Prop} (law : Prog.Compositional P C)
    {step : σ → ι → Prog P (Verdict σ)} (one : ∀ s item, C _ (step s item)) : ∀ items s, C _ (consume step s items) := by
  intro items
  induction items with
  | nil => exact fun s => law.pure _
  | cons item rest ih =>
    intro s
    refine law.bind (one s item) fun v => ?_
    cases v with
    | advance s' => exact law.bind (ih s') fun _ => law.pure _
    | finish s' => exact law.pure _
    | stop s' => exact law.pure _

end Cpptrw.Lib
