import GraphDoc.Proofs.Nesting

/-!
# Items between separators

Tokens that join items can be taken apart again when each item can be: the separators and the
closing token behind the last item cannot be mistaken for a part of one. What an item is stays
open; literals, arguments and fields are items.
-/
namespace GraphDoc

/-! ## What can stand behind an item -/

/-- The place of a token among those that may follow the name of a field: the later the part of the
field that it starts, the greater. A token that starts none of them ends the field. -/
def Token.stage : Token → Nat
  | colon => 0
  | parenOpen => 1
  | filterDirective => 2
  | braceOpen => 3
  | _ => 4

/-- The tokens do not go on with a part of a field before the given stage. -/
def StartsAt (stage : Nat) (tokens : List Token) : Prop :=
  ∀ token ∈ tokens.head?, stage ≤ token.stage

/-- The tokens start with a closing one. -/
def Closes (tokens : List Token) : Prop :=
  ∃ token rest, tokens = token :: rest ∧ token.closed? ≠ none

/-- A comma or an operator. -/
def Token.separates : Token → Prop
  | comma | operator _ => True
  | _ => False

theorem Token.stage_of_separates {token : Token} (h : token.separates) : token.stage = 4 := by
  cases token <;> first | rfl | cases h

theorem Token.stage_of_closes {token : Token} (h : token.closed? ≠ none) : token.stage = 4 := by
  cases token <;> first | rfl | exact absurd rfl h

theorem Token.not_separates_of_closes {token : Token} (h : token.closed? ≠ none) :
    ¬ token.separates := by
  cases token <;> first | exact id | exact absurd rfl h

theorem StartsAt.cons {stage : Nat} {token : Token} (h : stage ≤ token.stage)
    (rest : List Token) : StartsAt stage (token :: rest) := by
  intro t ht
  obtain rfl := Option.mem_some.mp ht
  exact h

/-- A token of an earlier stage is not what the tokens go on with. -/
theorem StartsAt.ne_cons {stage : Nat} {tokens : List Token} (h : StartsAt stage tokens)
    {token : Token} (ht : token.stage < stage) (rest : List Token) : tokens ≠ token :: rest := by
  rintro rfl
  exact absurd (h token rfl) (Nat.not_le.mpr ht)

theorem StartsAt.mono {m n : Nat} (hmn : m ≤ n) {tokens : List Token} (h : StartsAt n tokens) :
    StartsAt m tokens := fun token ht => hmn.trans (h token ht)

theorem Closes.startsAt {tokens : List Token} (h : Closes tokens) : StartsAt 4 tokens := by
  obtain ⟨token, rest, rfl, hc⟩ := h
  exact .cons (Token.stage_of_closes hc).ge rest

theorem closes_closing (bracket : Bracket) (rest : List Token) :
    Closes (bracket.closing :: rest) := ⟨_, rest, rfl, by cases bracket <;> decide⟩

/-! ## Items that can be told apart -/

/-- What stands in lists: how it is written, what of it shows, and which of it is considered. -/
structure Item (α : Type) where
  tokens : α → List Token
  visible : α → α
  Plain : α → Prop
  /-- An item has a first token, which is not a closing one. -/
  starts : ∀ a, ∃ token rest, tokens a = token :: rest ∧ token.closed? = none

namespace Item

variable {α : Type} (item : Item α)

/-- The item can be told from any other by its tokens, with whatever comes after an item behind
them. -/
def Told (a : α) : Prop :=
  ∀ b r s, item.Plain b → StartsAt 4 r → StartsAt 4 s → item.tokens a ++ r = item.tokens b ++ s →
    item.visible a = item.visible b ∧ r = s

/-- Items behind separators of their own. -/
def behind (pairs : List (Token × α)) : List Token :=
  pairs.flatMap fun pair => pair.1 :: item.tokens pair.2

/-- An item, and more of them behind separators. -/
def joined (first : α) (pairs : List (Token × α)) : List Token :=
  item.tokens first ++ item.behind pairs

def visiblePair (pair : Token × α) : Token × α := (pair.1, item.visible pair.2)

theorem gapTokens_eq_behind {separators : List Token} {items : List α}
    (h : separators.length = items.length) :
    gapTokens (items.map item.tokens) (.finite separators) =
      item.behind (separators.zip items) := by
  induction items generalizing separators with
  | nil =>
    rw [List.eq_nil_of_length_eq_zero h]
    rfl
  | cons first items ih =>
    cases separators with
    | nil => cases h
    | cons separator separators =>
      rw [List.map_cons, gapTokens_finite_cons, ih (Nat.succ.inj h)]
      rfl

theorem startsAt_behind {pairs : List (Token × α)} (h : ∀ pair ∈ pairs, pair.1.separates)
    {r : List Token} (hr : Closes r) : StartsAt 4 (item.behind pairs ++ r) := by
  cases pairs with
  | nil => exact hr.startsAt
  | cons pair pairs =>
    exact .cons (Token.stage_of_separates (h pair (List.mem_cons_self ..))).ge _

theorem not_closes_behind {pair : Token × α} (pairs : List (Token × α))
    (h : pair.1.separates) (r : List Token) : ¬ Closes (item.behind (pair :: pairs) ++ r) := by
  rintro ⟨token, rest, ht, hc⟩
  obtain ⟨rfl, _⟩ := List.cons.inj ht
  exact Token.not_separates_of_closes hc h

/-- Items behind separators, up to a closing token, can be told from any others. -/
theorem told_behind {xs ys : List (Token × α)} {r s : List Token}
    (hx : ∀ pair ∈ xs, pair.1.separates ∧ item.Told pair.2)
    (hy : ∀ pair ∈ ys, pair.1.separates ∧ item.Plain pair.2) (hr : Closes r) (hs : Closes s)
    (h : item.behind xs ++ r = item.behind ys ++ s) :
    xs.map item.visiblePair = ys.map item.visiblePair ∧ r = s := by
  induction xs generalizing ys with
  | nil =>
    cases ys with
    | nil => exact ⟨rfl, h⟩
    | cons y ys =>
      have hn := item.not_closes_behind ys (hy y (List.mem_cons_self ..)).1 s
      rw [← h] at hn
      exact absurd hr hn
  | cons x xs ih =>
    obtain ⟨⟨hxs, hxt⟩, hx⟩ := List.forall_mem_cons.mp hx
    cases ys with
    | nil =>
      have hn := item.not_closes_behind xs hxs r
      rw [h] at hn
      exact absurd hs hn
    | cons y ys =>
      obtain ⟨⟨hys, hyp⟩, hy⟩ := List.forall_mem_cons.mp hy
      simp only [behind, List.flatMap_cons, List.cons_append, List.append_assoc,
        List.cons.injEq] at h
      obtain ⟨hsep, h⟩ := h
      obtain ⟨hv, h⟩ := hxt y.2 _ _ hyp (item.startsAt_behind (fun p hp => (hx p hp).1) hr)
        (item.startsAt_behind (fun p hp => (hy p hp).1) hs) h
      obtain ⟨hm, h⟩ := ih hx hy h
      rw [List.map_cons, List.map_cons, hm, visiblePair, visiblePair, hsep, hv]
      exact ⟨rfl, h⟩

theorem told_joined {x y : α} {xs ys : List (Token × α)} {r s : List Token}
    (hx : item.Told x) (hxs : ∀ pair ∈ xs, pair.1.separates ∧ item.Told pair.2)
    (hy : item.Plain y) (hys : ∀ pair ∈ ys, pair.1.separates ∧ item.Plain pair.2)
    (hr : Closes r) (hs : Closes s) (h : item.joined x xs ++ r = item.joined y ys ++ s) :
    item.visible x = item.visible y ∧ xs.map item.visiblePair = ys.map item.visiblePair ∧
      r = s := by
  rw [joined, joined, List.append_assoc, List.append_assoc] at h
  obtain ⟨hv, h⟩ := hx y _ _ hy (item.startsAt_behind (fun p hp => (hxs p hp).1) hr)
    (item.startsAt_behind (fun p hp => (hys p hp).1) hs) h
  exact ⟨hv, item.told_behind hxs hys hr hs h⟩

/-! ### Items between commas -/

theorem not_closes_joined (first : α) (pairs : List (Token × α)) (r : List Token) :
    ¬ Closes (item.joined first pairs ++ r) := by
  obtain ⟨token, rest, ht, hc⟩ := item.starts first
  rintro ⟨other, _, ho, hn⟩
  rw [joined, ht] at ho
  obtain ⟨rfl, _⟩ := List.cons.inj ho
  exact hn hc

theorem commaTokens_map_cons (x : α) (xs : List α) :
    commaTokens ((x :: xs).map item.tokens) = item.joined x (xs.map (Prod.mk .comma)) := by
  rw [List.map_cons, commaTokens, joined, behind, List.flatMap_map, List.flatMap_map]

theorem map_visible_of_commas {xs ys : List α}
    (h : (xs.map (Prod.mk Token.comma)).map item.visiblePair =
      (ys.map (Prod.mk Token.comma)).map item.visiblePair) :
    xs.map item.visible = ys.map item.visible := by
  have hs := congrArg (List.map Prod.snd) h
  simp only [List.map_map] at hs
  exact hs

/-- Items between commas, up to a closing token, can be told from any others. -/
theorem told_commas {xs ys : List α} {r s : List Token} (hx : ∀ x ∈ xs, item.Told x)
    (hy : ∀ y ∈ ys, item.Plain y) (hr : Closes r) (hs : Closes s)
    (h : commaTokens (xs.map item.tokens) ++ r = commaTokens (ys.map item.tokens) ++ s) :
    xs.map item.visible = ys.map item.visible ∧ r = s := by
  cases xs with
  | nil =>
    cases ys with
    | nil => exact ⟨rfl, h⟩
    | cons y ys =>
      rw [commaTokens_map_cons] at h
      have hn := item.not_closes_joined y (ys.map (Prod.mk .comma)) s
      rw [← h] at hn
      exact absurd hr hn
  | cons x xs =>
    obtain ⟨hx, hxs⟩ := List.forall_mem_cons.mp hx
    cases ys with
    | nil =>
      rw [commaTokens_map_cons] at h
      have hn := item.not_closes_joined x (xs.map (Prod.mk .comma)) r
      rw [h] at hn
      exact absurd hs hn
    | cons y ys =>
      obtain ⟨hy, hys⟩ := List.forall_mem_cons.mp hy
      rw [commaTokens_map_cons, commaTokens_map_cons] at h
      obtain ⟨hv, hm, h⟩ := item.told_joined hx (by simpa [Token.separates] using hxs) hy
        (by simpa [Token.separates] using hys) hr hs h
      rw [List.map_cons, List.map_cons, hv, item.map_visible_of_commas hm]
      exact ⟨rfl, h⟩

end Item

end GraphDoc
