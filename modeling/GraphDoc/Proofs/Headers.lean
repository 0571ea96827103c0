import GraphDoc.Proofs.UnambiguousText

/-!
# Headers

A document up to its first brace is a header of at most two words, and these tell the kind and the
name of a valid operation. There is one collision. A single word may be a keyword or the name of a
graph pattern, so a graph pattern that is named like a keyword looks like the operation of that kind
without a name.
-/
namespace GraphDoc

/-- The operations that have a keyword, each under its keyword. -/
def keywordKinds : List (String × OperationKind) :=
  [("mutation", .mutation), ("query", .query), ("subscription", .subscription)]

theorem keyword?_eq_some_iff {kind : OperationKind} {word : String} :
    kind.keyword? = some word ↔ (word, kind) ∈ keywordKinds := by
  cases kind <;> simp [OperationKind.keyword?, keywordKinds, eq_comm]

theorem isValid_of_keyword {word : String} {kind : OperationKind}
    (h : (word, kind) ∈ keywordKinds) : Name.isValid word = true := by
  have hall : keywordKinds.all (Name.isValid ·.1) = true := by decide
  exact List.all_eq_true.mp hall _ h

theorem keyword?_eq_none_iff {kind : OperationKind} :
    kind.keyword? = none ↔ kind = .graphPattern := by
  cases kind <;> simp [OperationKind.keyword?]

namespace Operation

/-- The pattern is named like the keyword of an operation that has no name. -/
def Doubles (pattern o : Operation) : Prop :=
  pattern.kind = .graphPattern ∧ o.name = "" ∧ (pattern.name, o.kind) ∈ keywordKinds

instance (pattern o : Operation) : Decidable (pattern.Doubles o) :=
  inferInstanceAs (Decidable (_ ∧ _ ∧ _))

/-! ## The words of a header -/

/-- Keyword and name, as far as there are any. -/
def words (o : Operation) : List String := o.kind.keyword?.toList ++ o.name?.toList

theorem textOfTokens_header (o : Operation) :
    textOfTokens o.header = [' '].intercalate (o.words.map String.toList) := by
  unfold header words
  cases o.kind.keyword? <;> cases o.name? <;> simp [Token.shown, Token.text, List.intercalate]

theorem isValid_of_mem_words {o : Operation} (h : o.validate = .ok ()) :
    ∀ word ∈ o.words, Name.isValid word = true := by
  intro word hw
  rcases List.mem_append.mp hw with hw | hw
  · exact isValid_of_keyword (keyword?_eq_some_iff.mp (Option.mem_toList.mp hw))
  · exact name_of_validate h word (Option.mem_toList.mp hw)

/-- A word of a header holds neither the space between words nor the brace behind them. -/
theorem not_mem_of_isValid {word : String} (h : Name.isValid word = true) {c : Char}
    (hc : isWordChar c = false) : c ∉ word.toList := by
  intro hm
  rw [(isWordChar_of_isValid h).2 c hm] at hc
  cases hc

/-- The words can be found in the text of the header. Where there are none, the text is empty, and
cutting it at spaces leaves one empty piece, which no word is. -/
theorem splitOn_header {o : Operation} (h : o.validate = .ok ()) :
    (textOfTokens o.header).splitOn ' ' =
      if o.words = [] then [[]] else o.words.map String.toList := by
  rw [textOfTokens_header]
  split
  · rename_i hnone
    rw [hnone]
    rfl
  · rename_i hsome
    refine List.splitOn_intercalate ' ' ?_ (by simpa using hsome)
    intro text ht
    obtain ⟨word, hw, rfl⟩ := List.mem_map.mp ht
    exact not_mem_of_isValid (isValid_of_mem_words h word hw) (by decide)

theorem words_eq_of_header {a b : Operation} (ha : a.validate = .ok ()) (hb : b.validate = .ok ())
    (h : textOfTokens a.header = textOfTokens b.header) : a.words = b.words := by
  have hempty : ∀ {o : Operation}, o.validate = .ok () → o.words.map String.toList ≠ [[]] := by
    intro o ho heq
    obtain ⟨word, hw, hnil⟩ : ∃ word ∈ o.words, word.toList = [] :=
      List.mem_map.mp (heq ▸ List.mem_singleton_self [])
    exact (isWordChar_of_isValid (isValid_of_mem_words ho word hw)).1 hnil
  have hsplit := congrArg (List.splitOn ' ') h
  rw [splitOn_header ha, splitOn_header hb] at hsplit
  split at hsplit <;> split at hsplit
  · rename_i hna hnb
    rw [hna, hnb]
  · exact absurd hsplit.symm (hempty hb)
  · exact absurd hsplit (hempty ha)
  · exact (List.map_inj_right fun _ _ => String.toList_inj.mp).mp hsplit

/-! ## The header of a document -/

theorem exists_toList_render_eq (o : Operation) :
    ∃ selection, o.render.toList = textOfTokens o.header ++ '{' :: selection := by
  rw [o.toList_render, tokens_eq, textOfTokens_append, textOfTokens_cons]
  exact ⟨_, rfl⟩

theorem shown_of_mem_header {o : Operation} {token : Token} (h : token ∈ o.header) :
    token = .space ∨ ∃ word ∈ o.words, token.shown = word := by
  revert h
  unfold header words
  cases o.kind.keyword? <;> cases o.name? <;> simp +contextual [or_imp, Token.shown, Token.text]

/-- The first brace of a document stands behind its header. -/
theorem brace_not_mem_header {o : Operation} (h : o.validate = .ok ()) :
    '{' ∉ textOfTokens o.header := by
  intro hm
  obtain ⟨token, ht, hm⟩ := List.mem_flatMap.mp hm
  rcases shown_of_mem_header ht with rfl | ⟨word, hw, hshown⟩
  · revert hm
    decide
  · rw [hshown] at hm
    exact not_mem_of_isValid (isValid_of_mem_words h word hw) (by decide) hm

theorem takeWhile_render {o : Operation} (h : o.validate = .ok ()) :
    o.render.toList.takeWhile (· ≠ '{') = textOfTokens o.header := by
  have hheader : ∀ c ∈ textOfTokens o.header, decide (c ≠ '{') = true := by
    intro c hc
    refine decide_eq_true ?_
    rintro rfl
    exact brace_not_mem_header h hc
  obtain ⟨selection, htext⟩ := o.exists_toList_render_eq
  rw [htext, List.takeWhile_append_of_pos hheader, List.takeWhile_cons_of_neg (by decide),
    List.append_nil]

/-! ## What the words tell -/

theorem name?_eq_some {o : Operation} (h : o.name ≠ "") : o.name? = some o.name :=
  if_neg (by simpa using h)

theorem name_of_name?_eq_some {o : Operation} {name : String} (h : o.name? = some name) :
    o.name = name := by
  unfold name? at h
  split at h
  · cases h
  · exact Option.some.inj h

theorem name?_eq_none_iff {o : Operation} : o.name? = none ↔ o.name = "" := by
  simp [name?]

theorem name_eq_of_toList_name? {a b : Operation} (h : a.name?.toList = b.name?.toList) :
    a.name = b.name := by
  have hhead := congrArg List.head? h
  rw [Option.head?_toList, Option.head?_toList] at hhead
  exact name_eq_of_name? hhead

/-- The name of a pattern stands where the other operation has a keyword. -/
theorem doubles_of_words {pattern o : Operation} {keyword : String}
    (hp : pattern.kind.keyword? = none) (hk : o.kind.keyword? = some keyword)
    (h : pattern.words = o.words) : pattern.Doubles o := by
  unfold words at h
  rw [hp, hk] at h
  cases hname : pattern.name? with
  | none =>
    rw [hname] at h
    cases h
  | some name =>
    rw [hname] at h
    obtain ⟨rfl, hrest⟩ := List.cons.inj h
    have hnone : o.name? = none := Option.toList_eq_nil_iff.mp hrest.symm
    refine ⟨keyword?_eq_none_iff.mp hp, name?_eq_none_iff.mp hnone, ?_⟩
    rw [name_of_name?_eq_some hname]
    exact keyword?_eq_some_iff.mp hk

theorem words_of_doubles {pattern o : Operation} (h : pattern.Doubles o) :
    pattern.words = o.words := by
  obtain ⟨hp, hnone, hk⟩ := h
  have hname : pattern.name? = some pattern.name := by
    refine name?_eq_some fun hempty => ?_
    have hvalid := isValid_of_keyword hk
    rw [hempty] at hvalid
    cases hvalid
  unfold words
  rw [keyword?_eq_none_iff.mpr hp, keyword?_eq_some_iff.mpr hk, hname, name?_eq_none_iff.mpr hnone]
  rfl

theorem kind_and_name_of_words {a b : Operation} (h : a.words = b.words) :
    (a.kind = b.kind ∧ a.name = b.name) ∨ a.Doubles b ∨ b.Doubles a := by
  cases ha : a.kind.keyword? with
  | none =>
    cases hb : b.kind.keyword? with
    | none =>
      unfold words at h
      rw [ha, hb] at h
      exact .inl ⟨OperationKind.keyword?_injective (ha.trans hb.symm), name_eq_of_toList_name? h⟩
    | some keyword => exact .inr (.inl (doubles_of_words ha hb h))
  | some keyword =>
    cases hb : b.kind.keyword? with
    | none => exact .inr (.inr (doubles_of_words hb ha h.symm))
    | some other =>
      unfold words at h
      rw [ha, hb] at h
      obtain ⟨hsame, hrest⟩ := List.cons.inj h
      rw [hsame, ← hb] at ha
      exact .inl ⟨OperationKind.keyword?_injective ha, name_eq_of_toList_name? hrest⟩

/-! ## Operations with the same text -/

theorem render_eq_of_words {a b : Operation} (hw : a.words = b.words) (hf : a.fields = b.fields) :
    a.render = b.render := by
  rw [← String.toList_inj, a.toList_render, b.toList_render, tokens_eq, tokens_eq,
    textOfTokens_append, textOfTokens_append, textOfTokens_header, textOfTokens_header, hw, hf]

/-- A valid operation stays valid under another valid name. -/
theorem validate_withName {o : Operation} {name : String} (h : o.validate = .ok ())
    (hn : Name.isValid name = true) : (o.withName name).validate = .ok () := by
  have hname : nameOffences .operation name = [] := if_pos ((Name.isValid_iff name).mp hn)
  rw [validate_eq, firstOffence_eq_ok_iff, offences, List.append_eq_nil_iff] at h ⊢
  refine ⟨?_, h.2⟩
  rw [withName, hname, ite_self]

/-- Valid operations with the same text have the same kind and the same name, or one of them doubles
the other. A graph pattern that is named like a keyword and the operation without a name that has
this keyword do have the same text, whichever fields they are given that both kinds allow. -/
theorem headers_identify :
    (∀ a b : Operation, a.validate = .ok () → b.validate = .ok () → a.render = b.render →
      (a.kind = b.kind ∧ a.name = b.name) ∨ a.Doubles b ∨ b.Doubles a) ∧
    (∀ word kind, (word, kind) ∈ keywordKinds → ∀ fields : List Field,
      let pattern := graphPattern.withFields fields
      let o := (Operation.new kind).withFields fields
      pattern.validate = .ok () → o.validate = .ok () →
        (pattern.withName word).validate = .ok () ∧ (pattern.withName word).Doubles o ∧
        (pattern.withName word).render = o.render) := by
  constructor
  · intro a b ha hb h
    refine kind_and_name_of_words (words_eq_of_header ha hb ?_)
    rw [← takeWhile_render ha, ← takeWhile_render hb, h]
  · intro word kind hkind fields pattern o hp _
    have hdoubles : (pattern.withName word).Doubles o := ⟨rfl, rfl, hkind⟩
    exact ⟨validate_withName hp (isValid_of_keyword hkind), hdoubles,
      render_eq_of_words (words_of_doubles hdoubles) rfl⟩

theorem headers_identify_query :
    let fields := [(Field.new "user").withNames ["id"]]
    let unnamed := query.withFields fields
    let pattern := (graphPattern.withFields fields).withName "query"
    let named := unnamed.withName "Q"
    (unnamed.validate = .ok () ∧ named.validate = .ok () ∧ pattern.validate = .ok ()) ∧
      pattern.render = unnamed.render ∧ pattern.Doubles unnamed ∧ named.render ≠ pattern.render := by
  intro fields unnamed pattern named
  obtain ⟨hidentify, hcollide⟩ := headers_identify
  have hunnamed : unnamed.validate = .ok () := by decide
  have hnamed : named.validate = .ok () := by decide
  obtain ⟨hpattern, hdoubles, hrender⟩ :=
    hcollide "query" .query (by decide) fields (by decide) hunnamed
  refine ⟨⟨hunnamed, hnamed, hpattern⟩, hrender, hdoubles, fun h => ?_⟩
  have hnone : ¬ ((named.kind = pattern.kind ∧ named.name = pattern.name) ∨ named.Doubles pattern ∨
      pattern.Doubles named) := by decide
  exact hnone (hidentify named pattern hnamed hpattern h)

end Operation

end GraphDoc
