import GraphDoc.Proofs.FunctionCalls
import GraphDoc.Proofs.Pulling

/-!
# Call bodies

The body of a call is pulled out of the tokens of its value. Its tokens are those of a cut and two
passes over a list, pull by pull: a pull passes over the braces in front of the next token in so
many steps, and once the value has ended or has been given up there is nothing more. What a call
has made, another call leaves as it is.
-/
namespace GraphDoc

namespace TokenStream

theorem step_call_brace (stopsAtColon : Bool) {token : Token} (h : token.isBrace = true)
    (tokens : List Token) :
    (call stopsAtColon (.tokens (token :: tokens))).step =
      .skip (call stopsAtColon (.tokens tokens)) := by
  simp only [step, h, if_true]

theorem step_call_ne_skip (stopsAtColon : Bool) {token : Token} (h : token.isBrace = false)
    (tokens : List Token) (rest : TokenStream) :
    (call stopsAtColon (.tokens (token :: tokens))).step ≠ .skip rest := by
  simp only [step, h, Bool.false_eq_true, if_false]
  split
  · split <;> simp
  · simp

/-- A pull from a body takes one step for each brace in front and one more. -/
theorem pullWithin_call (stopsAtColon : Bool) (tokens : List Token) (n : Nat) :
    (call stopsAtColon (.tokens tokens)).pullWithin n =
      if (tokens.takeWhile (·.isBrace)).length < n then
        some (call stopsAtColon (.tokens tokens)).pull
      else none := by
  induction tokens generalizing n with
  | nil =>
    cases n with
    | zero => rfl
    | succ n =>
      rw [pullWithin_of_not_skip (by simp [step])]
      exact (if_pos (Nat.succ_pos n)).symm
  | cons token tokens ih =>
    cases n with
    | zero => rfl
    | succ n =>
      -- A brace in front is a step of the same pull, and any other token ends it.
      cases hbrace : token.isBrace with
      | true =>
        have hstep := step_call_brace stopsAtColon hbrace tokens
        rw [pullWithin_of_skip hstep, pull_of_skip hstep, ih, List.takeWhile_cons_of_pos hbrace,
          List.length_cons]
        simp only [Nat.add_lt_add_iff_right]
      | false =>
        rw [pullWithin_of_not_skip (step_call_ne_skip stopsAtColon hbrace tokens),
          List.takeWhile_cons_of_neg (by rw [hbrace]; exact Bool.false_ne_true)]
        exact (if_pos (Nat.succ_pos n)).symm

/-- The body of a call is pulled token by token as the list that is made of the tokens of its
value, and has ended for good where that list ends. Every pull ends, the first one after the braces
in front, and a further call changes nothing. -/
theorem call_pulls_body (stopsAtColon : Bool) :
    (∀ value : TokenStream,
      let body := callTokens stopsAtColon value.toList
      (∀ n, ((call stopsAtColon value).afterPulls n).pull.1 = body[n]?) ∧
      (∀ n, ((call stopsAtColon value).afterPulls n).pull.1 = none ↔ body.length ≤ n) ∧
      (∀ n, ((call stopsAtColon value).take n).1 = body.take n) ∧
      (∀ n, ((call stopsAtColon value).afterPulls n).pullWithin (value.work + 1) =
        some ((call stopsAtColon value).afterPulls n).pull) ∧
      (∀ again, callTokens again body = body) ∧
      (∀ again n, ((call again (call stopsAtColon value)).afterPulls n).pull.1 = body[n]?)) ∧
    (∀ tokens n, (call stopsAtColon (.tokens tokens)).pullWithin n =
      if (tokens.takeWhile (·.isBrace)).length < n then
        some (call stopsAtColon (.tokens tokens)).pull
      else none) := by
  refine ⟨fun value => ?_, pullWithin_call stopsAtColon⟩
  have hpulls : ∀ n, ((call stopsAtColon value).afterPulls n).pull.1 =
      (callTokens stopsAtColon value.toList)[n]? := by
    intro n
    rw [pull_afterPulls, toList_call]
  have hagain : ∀ again, callTokens again (callTokens stopsAtColon value.toList) =
      callTokens stopsAtColon value.toList :=
    fun _ => callTokens_of_stays staysInCall_of_mem_callTokens
  refine ⟨hpulls, fun n => ?_, fun n => ?_, fun n => ?_, hagain, fun again n => ?_⟩
  · rw [hpulls, List.getElem?_eq_none_iff]
  · rw [((call stopsAtColon value).take_eq n).1, toList_call]
  · exact pullWithin_of_work_lt (Nat.lt_succ_of_le ((call stopsAtColon value).work_afterPulls_le n))
  · rw [pull_afterPulls, toList_call, toList_call, hagain]

end TokenStream

end GraphDoc
