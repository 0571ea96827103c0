import GraphDoc.Proofs.Items
import GraphDoc.Proofs.Literals

/-!
# Tokens determine values and arguments

The tokens of a value or argument without calls can be read back in one way only, up to what they
do not show. Each statement compares two nodes with arbitrary tokens behind them: equal tokens give
equal visible parts and equal remainders.
-/
namespace GraphDoc

/-! ## Nodes without calls -/

mutual

def Value.callFree : Value → Bool
  | .bool _ | .int _ | .string _ | .regex _ | .bools _ | .ints _ | .strings _ => true
  | .object arguments => Argument.allCallFree arguments
  | .argument argument => argument.callFree

def Argument.callFree : Argument → Bool
  | .pair _ value => value.callFree
  | .call .. => false

def Argument.allCallFree : List Argument → Bool
  | [] => true
  | argument :: arguments => argument.callFree && Argument.allCallFree arguments

end

theorem Argument.allCallFree_iff (arguments : List Argument) :
    Argument.allCallFree arguments = true ↔ ∀ argument ∈ arguments, argument.callFree = true := by
  induction arguments with
  | nil => simp [allCallFree]
  | cons argument arguments ih => simp [allCallFree, ih]

/-! ## Values and arguments -/

/-- The literals of a list, which show all they are. -/
def literalItem : Item String where
  tokens text := [.literal text]
  visible := id
  Plain _ := True
  starts _ := ⟨_, _, rfl, rfl⟩

theorem told_literal (text : String) : literalItem.Told text := by
  intro other r s _ _ _ h
  simpa [literalItem] using h

theorem told_listTokens {texts others : List String} {r s : List Token}
    (h : listTokens (texts.map .literal) ++ r = listTokens (others.map .literal) ++ s) :
    texts = others ∧ r = s := by
  simp only [listTokens, List.map_map, List.cons_append, List.append_assoc, List.nil_append,
    List.cons.injEq, true_and] at h
  obtain ⟨hm, h⟩ := literalItem.told_commas (fun text _ => told_literal text) (fun _ _ => trivial)
    (closes_closing .square r) (closes_closing .square s) h
  simp only [literalItem, List.map_id] at hm
  exact ⟨hm, (List.cons.inj h).2⟩

theorem Argument.exists_tokens_eq_cons (argument : Argument) :
    ∃ rest, argument.tokens = .name argument.name :: rest := by
  cases argument with
  | pair name value => exact ⟨_, tokens_pair name value⟩
  | call name value => exact ⟨_, tokens_call name value⟩

def argumentItem : Item Argument where
  tokens := Argument.tokens
  visible := Argument.visible
  Plain argument := argument.callFree = true
  starts argument := by
    obtain ⟨rest, h⟩ := argument.exists_tokens_eq_cons
    exact ⟨_, rest, h, rfl⟩

/-- The value can be told from any other by its tokens, whatever stands behind them. -/
def Value.Told (value : Value) : Prop :=
  ∀ (other : Value) (r s : List Token), other.callFree = true →
    value.tokens ++ r = other.tokens ++ s → value.visible = other.visible ∧ r = s

/-- The argument can be told from any other by its tokens, whatever stands behind them. -/
def Argument.Told (argument : Argument) : Prop :=
  ∀ (other : Argument) (r s : List Token), other.callFree = true →
    argument.tokens ++ r = other.tokens ++ s → argument.visible = other.visible ∧ r = s

theorem Argument.Told.item {argument : Argument} (h : argument.Told) :
    argumentItem.Told argument := fun other r s hf _ _ => h other r s hf

/-- The first token of a layout. -/
theorem Layout.exists_tokens_eq_cons (layout : Layout) : ∃ rest, layout.tokens =
    (match layout with
      | literal text => Token.literal text
      | list _ => .bracketOpen
      | object _ => .braceOpen
      | argument arg => .name arg.name) :: rest := by
  cases layout with
  | argument arg => exact arg.exists_tokens_eq_cons
  | _ => exact ⟨_, rfl⟩

namespace Value

theorem told_of_literal {value : Value} {text : String} (hl : value.layout = .literal text) :
    value.Told := by
  intro other r s _ h
  rw [tokens_eq_layout, tokens_eq_layout other, hl] at h
  obtain ⟨rest, ho⟩ := other.layout.exists_tokens_eq_cons
  cases hm : other.layout with
  | literal text' =>
    rw [hm] at h
    obtain ⟨ht, hrest⟩ := List.cons.inj h
    obtain rfl := Token.literal.inj ht
    rw [visible_of_literal hl, visible_of_literal hm]
    exact ⟨rfl, hrest⟩
  | _ =>
    rw [ho, hm] at h
    cases (List.cons.inj h).1

theorem told_of_list {value : Value} {texts : List String} (hl : value.layout = .list texts) :
    value.Told := by
  intro other r s _ h
  rw [tokens_eq_layout, tokens_eq_layout other, hl] at h
  obtain ⟨rest, ho⟩ := other.layout.exists_tokens_eq_cons
  cases hm : other.layout with
  | list texts' =>
    rw [hm] at h
    obtain ⟨rfl, hrest⟩ := told_listTokens h
    rw [visible_of_list hl, visible_of_list hm]
    exact ⟨rfl, hrest⟩
  | _ =>
    rw [ho, hm] at h
    cases (List.cons.inj h).1

theorem told_object {arguments : List Argument} (ha : ∀ argument ∈ arguments, argument.Told) :
    (object arguments).Told := by
  intro other r s hf h
  rw [tokens_eq_layout, tokens_eq_layout other] at h
  obtain ⟨rest, ho⟩ := other.layout.exists_tokens_eq_cons
  cases other with
  | object others =>
    rw [callFree, Argument.allCallFree_iff] at hf
    simp only [layout, Layout.tokens, List.cons_append, List.append_assoc, List.nil_append,
      List.cons.injEq, true_and] at h
    obtain ⟨hm, h⟩ := argumentItem.told_commas (fun a hm => (ha a hm).item) hf
      (closes_closing .brace r) (closes_closing .brace s) h
    rw [visible, visible, Argument.visibleAll_eq_map, Argument.visibleAll_eq_map]
    exact ⟨congrArg object hm, (List.cons.inj h).2⟩
  | _ =>
    rw [ho] at h
    cases (List.cons.inj h).1

theorem told_argument {arg : Argument} (ha : arg.Told) : (argument arg).Told := by
  intro other r s hf h
  cases other with
  | argument b =>
    rw [tokens_argument, tokens_argument] at h
    obtain ⟨hv, h⟩ := ha b r s hf h
    rw [visible, visible, hv]
    exact ⟨rfl, h⟩
  | _ =>
    rw [tokens_eq_layout, tokens_eq_layout] at h
    obtain ⟨rest, ho⟩ := (argument arg).layout.exists_tokens_eq_cons
    rw [ho] at h
    cases (List.cons.inj h).1

end Value

theorem Argument.told_pair {name : String} {value : Value} (hv : value.Told) :
    (pair name value).Told := by
  intro other r s hf h
  cases other with
  | call name' value' => cases hf
  | pair name' value' =>
    simp only [tokens_pair, List.cons_append, List.cons.injEq, true_and] at h
    obtain ⟨hn, h⟩ := h
    obtain rfl := Token.name.inj hn
    obtain ⟨hv, h⟩ := hv value' r s hf h
    rw [visible, visible, hv]
    exact ⟨rfl, h⟩

mutual

theorem Value.told : ∀ value : Value, value.callFree = true → value.Told
  | .bool _, _ | .int _, _ | .string _, _ | .regex _, _ => Value.told_of_literal rfl
  | .bools _, _ | .ints _, _ | .strings _, _ => Value.told_of_list rfl
  | .object arguments, h => Value.told_object (Argument.all_told arguments h)
  | .argument argument, h => Value.told_argument (argument.told h)

theorem Argument.told : ∀ argument : Argument, argument.callFree = true → argument.Told
  | .pair _ value, h => Argument.told_pair (value.told h)

theorem Argument.all_told : ∀ arguments : List Argument, Argument.allCallFree arguments = true →
    ∀ argument ∈ arguments, argument.Told
  | [], _ => by simp
  | argument :: arguments, h => by
    rw [Argument.allCallFree, Bool.and_eq_true] at h
    exact List.forall_mem_cons.mpr ⟨argument.told h.1, Argument.all_told arguments h.2⟩

end

/-! ## Arguments between separators -/

/-- The operators and the arguments that they stand between fit together, or there are no
operators. -/
def Fits (operators : List String) (arguments : List Argument) : Prop :=
  operators = [] ∨ operators.length + 1 = arguments.length

/-- What stands before each of the arguments but the first. -/
def separators (operators : List String) (arguments : List Argument) : List Token :=
  if operators = [] then arguments.map fun _ => .comma else operators.map .operator

theorem separates_of_mem {operators : List String} {arguments : List Argument} {token : Token}
    (h : token ∈ separators operators arguments) : token.separates := by
  unfold separators at h
  split at h
  · obtain ⟨_, _, rfl⟩ := List.mem_map.mp h
    trivial
  · obtain ⟨_, _, rfl⟩ := List.mem_map.mp h
    trivial

/-- The separators tell the operators. -/
theorem operators_eq_of_separators {operators others : List String}
    {arguments more : List Argument}
    (h : separators operators arguments = separators others more) : operators = others := by
  unfold separators at h
  split at h <;> split at h
  · rename_i ho hp
    rw [ho, hp]
  · rename_i hp
    obtain ⟨text, texts, rfl⟩ := List.exists_cons_of_ne_nil hp
    cases arguments <;> cases h
  · rename_i ho hp
    obtain ⟨text, texts, rfl⟩ := List.exists_cons_of_ne_nil ho
    cases more <;> cases h
  · exact (List.map_inj_right fun _ _ => Token.operator.inj).mp h

theorem length_separators {operators : List String} {first : Argument} {arguments : List Argument}
    (h : Fits operators (first :: arguments)) :
    (separators operators arguments).length = arguments.length := by
  unfold separators
  split
  · exact List.length_map _
  · rename_i ho
    rw [List.length_map]
    exact Nat.succ.inj (h.resolve_left ho)

/-- Arguments with commas between them, or with operators where there are any. -/
def joinedTokens (operators : List String) (arguments : List Argument) : List Token :=
  if operators = [] then commaTokens (arguments.map Argument.tokens)
  else operatorTokens operators arguments

theorem joinedTokens_cons {operators : List String} {first : Argument} {arguments : List Argument}
    (h : Fits operators (first :: arguments)) :
    joinedTokens operators (first :: arguments) =
      argumentItem.joined first ((separators operators arguments).zip arguments) := by
  have hlen := length_separators h
  unfold joinedTokens
  by_cases ho : operators = []
  · have hz := List.zip_map' (f := fun _ => Token.comma) (g := id) (l := arguments)
    rw [List.map_id] at hz
    rw [if_pos ho, separators, if_pos ho, hz]
    exact argumentItem.commaTokens_map_cons first arguments
  · rw [separators, if_neg ho] at hlen ⊢
    rw [if_neg ho, operatorTokens, List.map_cons, interleavedTokens]
    exact congrArg (first.tokens ++ ·) (argumentItem.gapTokens_eq_behind hlen)

/-- Arguments between separators, up to the closing parenthesis, can be told from any others. -/
theorem told_joinedTokens {operators others : List String} {first second : Argument}
    {arguments more : List Argument} {r s : List Token}
    (hf : Fits operators (first :: arguments)) (hg : Fits others (second :: more))
    (ha : Argument.allCallFree (first :: arguments) = true)
    (hb : Argument.allCallFree (second :: more) = true)
    (h : joinedTokens operators (first :: arguments) ++ .parenClose :: r =
      joinedTokens others (second :: more) ++ .parenClose :: s) :
    operators = others ∧
      (first :: arguments).map Argument.visible = (second :: more).map Argument.visible ∧
      r = s := by
  have hx : ∀ pair ∈ (separators operators arguments).zip arguments,
      pair.1.separates ∧ argumentItem.Told pair.2 := fun pair hp =>
    ⟨separates_of_mem (List.of_mem_zip hp).1,
      (Argument.all_told _ ha _ (List.mem_cons_of_mem _ (List.of_mem_zip hp).2)).item⟩
  have hy : ∀ pair ∈ (separators others more).zip more,
      pair.1.separates ∧ argumentItem.Plain pair.2 := fun pair hp =>
    ⟨separates_of_mem (List.of_mem_zip hp).1,
      (Argument.allCallFree_iff _).mp hb _ (List.mem_cons_of_mem _ (List.of_mem_zip hp).2)⟩
  rw [joinedTokens_cons hf, joinedTokens_cons hg] at h
  obtain ⟨hv, hm, h⟩ := argumentItem.told_joined
    (Argument.all_told _ ha first (List.mem_cons_self ..)).item hx
    ((Argument.allCallFree_iff _).mp hb second (List.mem_cons_self ..)) hy
    (closes_closing .paren r) (closes_closing .paren s) h
  have hfst := congrArg (List.map Prod.fst) hm
  have hsnd := congrArg (List.map Prod.snd) hm
  simp only [List.map_map] at hfst hsnd
  have hleft := length_separators hf
  have hright := length_separators hg
  have hsep : separators operators arguments = separators others more := by
    rw [← List.map_fst_zip hleft.le, ← List.map_fst_zip hright.le]
    exact hfst
  refine ⟨operators_eq_of_separators hsep, ?_, (List.cons.inj h).2⟩
  rw [List.map_cons, List.map_cons]
  refine congrArg₂ List.cons hv ?_
  rw [← List.map_snd_zip hleft.ge, ← List.map_snd_zip hright.ge, List.map_map, List.map_map]
  exact hsnd

end GraphDoc
