import GraphDoc.Proofs.RenderedText

/-!
# Pulled tokens

A stream is pulled one token at a time and may be left at any point. What has been pulled are the
first of its tokens and what is left holds the others, so the text of a document may be put together
from the two. Here this is shown of any stream, and with it that a node shows itself as it is
rendered.
-/
namespace GraphDoc

namespace TokenStream

/-! ## Single pulls -/

theorem pull_of_emit {s rest : TokenStream} {token : Token} (h : s.step = .emit token rest) :
    s.pull = (some token, rest) := by
  rw [pull]
  split <;> simp_all

theorem pull_of_skip {s rest : TokenStream} (h : s.step = .skip rest) : s.pull = rest.pull := by
  rw [pull]
  split <;> simp_all

theorem pull_of_done {s : TokenStream} (h : s.step = .done) : s.pull = (none, empty) := by
  rw [pull]
  split <;> simp_all

/-- A pull hands out the first of the tokens that are still to come. -/
theorem pull_fst (s : TokenStream) : s.pull.1 = s.toList.head? := by
  fun_induction pull s with
  | case1 s token rest hs => rw [toList_of_emit hs, List.head?_cons]
  | case2 s rest hs ih => rw [ih, toList_of_skip hs]
  | case3 s hs => rw [toList_of_done hs, List.head?_nil]

/-- It leaves the others. -/
theorem toList_pull_snd (s : TokenStream) : s.pull.2.toList = s.toList.tail := by
  fun_induction pull s with
  | case1 s token rest hs => rw [toList_of_emit hs, List.tail_cons]
  | case2 s rest hs ih => rw [ih, toList_of_skip hs]
  | case3 s hs => rw [toList_of_done hs, toList_empty, List.tail_nil]

/-- A pull adds nothing to the work that is left. -/
theorem work_pull_snd_le (s : TokenStream) : s.pull.2.work ≤ s.work := by
  fun_induction pull s with
  | case1 s token rest hs => exact (work_lt_of_emit hs).le
  | case2 s rest hs ih => exact ih.trans (work_lt_of_skip hs).le
  | case3 s hs => exact Nat.zero_le _

/-! ## Pulls in a row -/

/-- What is left after so many pulls, whether they found a token or not. -/
def afterPulls : Nat → TokenStream → TokenStream
  | 0, s => s
  | n + 1, s => afterPulls n s.pull.2

theorem toList_afterPulls (n : Nat) (s : TokenStream) :
    (s.afterPulls n).toList = s.toList.drop n := by
  induction n generalizing s with
  | zero => rfl
  | succ n ih => rw [afterPulls, ih, toList_pull_snd, List.drop_tail]

/-- The pull after `n` others hands out the token with number `n`, and none from the end on. -/
theorem pull_afterPulls (n : Nat) (s : TokenStream) : (s.afterPulls n).pull.1 = s.toList[n]? := by
  rw [pull_fst, toList_afterPulls, List.head?_drop]

theorem work_afterPulls_le (n : Nat) (s : TokenStream) : (s.afterPulls n).work ≤ s.work := by
  induction n generalizing s with
  | zero => exact Nat.le_refl _
  | succ n ih => exact (ih s.pull.2).trans s.work_pull_snd_le

/-- Pulling at most `n` tokens hands out the first `n` and leaves the others. -/
theorem take_eq (n : Nat) (s : TokenStream) :
    (s.take n).1 = s.toList.take n ∧ (s.take n).2.toList = s.toList.drop n := by
  induction n generalizing s with
  | zero => exact ⟨rfl, rfl⟩
  | succ n ih =>
    obtain ⟨rest, hpull, hrest⟩ :
        ∃ rest, s.pull = (s.toList.head?, rest) ∧ rest.toList = s.toList.tail :=
      ⟨s.pull.2, Prod.ext s.pull_fst rfl, s.toList_pull_snd⟩
    cases hs : s.toList with
    | nil =>
      -- Stopping here loses nothing: an ended stream leaves an ended one.
      rw [hs] at hpull hrest
      simp only [take, hpull, List.head?_nil]
      exact ⟨rfl, hrest⟩
    | cons token tokens =>
      rw [hs] at hpull hrest
      obtain ⟨htaken, hleft⟩ := ih rest
      simp only [take, hpull, List.head?_cons]
      rw [htaken, hleft, hrest]
      exact ⟨rfl, rfl⟩

theorem take_append_rest (n : Nat) (s : TokenStream) :
    (s.take n).1 ++ (s.take n).2.toList = s.toList := by
  rw [(s.take_eq n).1, (s.take_eq n).2, List.take_append_drop]

/-! ## The steps of a pull -/

/-- The outcome of a pull, if there is one within so many steps. -/
def pullWithin : Nat → TokenStream → Option (Option Token × TokenStream)
  | 0, _ => none
  | n + 1, s =>
    match s.step with
    | .emit token rest => some (some token, rest)
    | .skip rest => pullWithin n rest
    | .done => some (none, empty)

theorem pullWithin_of_skip {s rest : TokenStream} (h : s.step = .skip rest) (n : Nat) :
    s.pullWithin (n + 1) = rest.pullWithin n := by
  rw [pullWithin, h]

/-- A pull that passes nothing over takes a single step. -/
theorem pullWithin_of_not_skip {s : TokenStream} (h : ∀ rest, s.step ≠ .skip rest) (n : Nat) :
    s.pullWithin (n + 1) = some s.pull := by
  cases hs : s.step with
  | emit token rest => rw [pullWithin, hs, pull_of_emit hs]
  | skip rest => exact absurd hs (h rest)
  | done => rw [pullWithin, hs, pull_of_done hs]

/-- A pull ends within the work that is left and one more step. -/
theorem pullWithin_of_work_lt {n : Nat} {s : TokenStream} (h : s.work < n) :
    s.pullWithin n = some s.pull := by
  induction n generalizing s with
  | zero => exact absurd h (Nat.not_lt_zero _)
  | succ n ih =>
    by_cases hskip : ∃ rest, s.step = .skip rest
    · obtain ⟨rest, hs⟩ := hskip
      have hless := work_lt_of_skip hs
      rw [pullWithin_of_skip hs, pull_of_skip hs]
      exact ih (by omega)
    · exact pullWithin_of_not_skip (fun rest hs => hskip ⟨rest, hs⟩) n

/-! ## The text of a cut stream -/

/-- A stream shows the text that it appends to a document. -/
theorem shown_eq_text (s : TokenStream) : s.shown = s.text := by
  rw [← String.toList_inj, toList_text, shown, String.toList_join, List.flatMap_map, textOfTokens]

theorem shown_take_append_text (n : Nat) (s : TokenStream) :
    String.join ((s.take n).1.map Token.shown) ++ (s.take n).2.text = s.text := by
  rw [← shown_eq_text, shown, ← String.join_append, ← List.map_append, take_append_rest,
    ← shown_eq_text, shown]

end TokenStream

/-- Appending tokens to a document one by one appends the texts that they show. -/
theorem Token.foldl_appendTo (out : String) (tokens : List Token) :
    tokens.foldl appendTo out = out ++ String.join (tokens.map shown) := by
  induction tokens generalizing out with
  | nil => simp
  | cons token tokens ih =>
    rw [List.foldl_cons, ih, appendTo_eq, List.map_cons, String.join_cons, String.append_assoc]

/-- Every node shows itself as it is rendered. A stream that is cut anywhere has the text of the
whole: the text up to the cut is the same whether the tokens are appended or show themselves, and
the text of the rest goes on from there. -/
theorem nodes_shown_as_rendered :
    (∀ value : Value, value.shown = value.render) ∧
    (∀ argument : Argument, argument.shown = argument.render) ∧
    (∀ f : Field, f.shown = f.render) ∧
    (∀ o : Operation, o.shown = o.render) ∧
    (∀ (s : TokenStream) (n : Nat),
      String.join ((s.take n).1.map Token.shown) = (s.take n).1.foldl Token.appendTo "" ∧
      String.join ((s.take n).1.map Token.shown) ++ (s.take n).2.text = s.text) := by
  refine ⟨fun _ => rfl, fun argument => argument.stream.shown_eq_text,
    fun f => f.stream.shown_eq_text, fun o => o.stream.shown_eq_text, fun s n => ⟨?_, ?_⟩⟩
  · rw [Token.foldl_appendTo, String.empty_append]
  · exact s.shown_take_append_text n

end GraphDoc
