import CodeOutline.Proofs.Delimiter.Scan
import CodeOutline.Proofs.Order
import CodeOutline.Proofs.Outline.Part
import CodeOutline.Proofs.Shape.Keyword

namespace CodeOutline.Outline

/-- What a statement can be read as. -/
inductive Recogniser where
  | declared
  | conditional
  | forLoop
  | whileLoop
  | returned
  | called
  deriving DecidableEq, Repr

namespace Recogniser

/-- In the order in which they are tried. -/
def all : List Recogniser :=
  [.declared, .conditional, .forLoop, .whileLoop, .returned, .called]

def read? (levels : Nat) (below : Option Level) (slice : Slice) : Recogniser → Option Outline
  | .declared => (Declaration.read? slice).map (ofDeclaration .statement)
  | .conditional => (conditional? levels below slice).map (·.1)
  | .forLoop => (forLoop? levels below slice).map (·.1)
  | .whileLoop => (whileLoop? levels below slice).map (·.1)
  | .returned => return? slice
  | .called => callStatement? slice

/-- The one that the first word of a text leaves, unless the text declares a variable. -/
def ofWord (word : String) : Recogniser :=
  if word = "if" then .conditional
  else if word = "for" then .forLoop
  else if word = "while" then .whileLoop
  else if word = "return" then .returned
  else .called

variable {levels : Nat} {below : Option Level} {slice name after : Slice} {heading : Heading}
  {recogniser first second : Recogniser}

theorem statement?_eq : statement? levels below slice =
    all.findSome? (read? levels below slice) := by
  simp only [statement?, all, List.findSome?_cons, List.findSome?_nil, read?]
  cases (Declaration.read? slice).map (ofDeclaration .statement) with
  | some outline => rfl
  | none =>
    cases (conditional? levels below slice).map (·.1) with
    | some outline => rfl
    | none =>
      cases (forLoop? levels below slice).map (·.1) with
      | some outline => rfl
      | none =>
        cases (whileLoop? levels below slice).map (·.1) with
        | some outline => rfl
        | none =>
          cases return? slice with
          | some outline => rfl
          | none => cases callStatement? slice <;> rfl

theorem ofWord_of_not_isKeyword {word : String} (h : ¬ Keyword.isKeyword word) :
    ofWord word = .called := by
  have hne {keyword : String} (hk : Keyword.isKeyword keyword) : word ≠ keyword :=
    fun he => h (he ▸ hk)
  rw [ofWord, if_neg (hne (by decide)), if_neg (hne (by decide)), if_neg (hne (by decide)),
    if_neg (hne (by decide))]

section

variable (hf : ∀ cell ∈ slice.cells, cell.IsFaithful)
include hf

/-- A text with a heading declares nothing: a word before a parenthesis is no name with a type. -/
theorem declaration_of_heading? (h : slice.heading? = some heading) :
    Declaration.read? slice = none ∧
      ∃ after, slice.word? CharClass.isWord = some (heading.name, after) := by
  obtain ⟨after, hw, hopen⟩ := Slice.exists_word?_of_heading? h
  refine ⟨?_, after, hw⟩
  rw [Declaration.read?, Declarator.read?_of_parenthesis hf hw hopen]
  rfl

/-- Beside the declarations a recogniser is known by the first word of what it reads. -/
theorem eq_ofWord (h : (recogniser.read? levels below slice).isSome) :
    recogniser = .declared ∨ Declaration.read? slice = none ∧
      ∃ name after, slice.word? CharClass.isWord = some (name, after) ∧
        recogniser = ofWord name.text := by
  have hheading {kind : Recogniser} {heading : Heading} (hh : slice.heading? = some heading)
      (hk : ofWord heading.name.text = kind) :
      Declaration.read? slice = none ∧ ∃ name after,
        slice.word? CharClass.isWord = some (name, after) ∧ kind = ofWord name.text := by
    obtain ⟨hd, after, hw⟩ := declaration_of_heading? hf hh
    exact ⟨hd, heading.name, after, hw, hk.symm⟩
  obtain ⟨outline, h⟩ := Option.isSome_iff_exists.1 h
  cases recogniser with
  | declared => exact .inl rfl
  | conditional =>
    obtain ⟨_, hc, _⟩ := Option.map_eq_some_iff.1 h
    obtain ⟨heading, hh, hc⟩ := Option.bind_eq_some_iff.1 hc
    obtain ⟨hk, _⟩ := Option.ite_none_right_eq_some.1 hc
    exact .inr (hheading hh (by rw [hk]; rfl))
  | forLoop =>
    obtain ⟨_, hc, _⟩ := Option.map_eq_some_iff.1 h
    obtain ⟨heading, hh, hc⟩ := Option.bind_eq_some_iff.1 hc
    obtain ⟨hk, _⟩ := Option.ite_none_right_eq_some.1 hc
    exact .inr (hheading hh (by rw [hk]; rfl))
  | whileLoop =>
    obtain ⟨_, hc, _⟩ := Option.map_eq_some_iff.1 h
    obtain ⟨heading, hh, hc⟩ := Option.bind_eq_some_iff.1 hc
    obtain ⟨hk, _⟩ := Option.ite_none_right_eq_some.1 hc
    exact .inr (hheading hh (by rw [hk.1]; rfl))
  | returned =>
    obtain ⟨rest, _, _, ha, _⟩ := return?_spec h
    obtain ⟨name, hw, hname⟩ := Slice.exists_word?_of_after? ha
    refine .inr ⟨?_, name, rest, hw, by rw [hname]; rfl⟩
    rw [Declaration.read?, Declarator.read?_of_keyword hw (by rw [hname]; decide)]
    rfl
  | called =>
    obtain ⟨heading, hh, h⟩ := Option.bind_eq_some_iff.1 h
    obtain ⟨hk, _⟩ := Option.ite_none_left_eq_some.1 h
    exact .inr (hheading hh (ofWord_of_not_isKeyword hk))

/-- At most one recogniser reads a text. -/
theorem eq_of_isSome (h : (first.read? levels below slice).isSome)
    (h' : (second.read? levels below slice).isSome) : first = second := by
  have hdeclared : (declared.read? levels below slice).isSome → Declaration.read? slice ≠ none := by
    intro hs hn
    rw [read?, hn] at hs
    cases hs
  rcases eq_ofWord hf h with rfl | ⟨hn, name, after, hw, hfirst⟩
  · rcases eq_ofWord hf h' with rfl | ⟨hn, _⟩
    · rfl
    · exact absurd hn (hdeclared h)
  · rcases eq_ofWord hf h' with rfl | ⟨_, name', after', hw', hsecond⟩
    · exact absurd hn (hdeclared h')
    · cases hw.symm.trans hw'
      exact hfirst.trans hsecond.symm

end

end Recogniser

variable {levels : Nat} {below : Option Level} {block : Slice}

theorem pairwise_statements : (statements levels below block).Pairwise fun left right =>
    left.label.offset < right.label.offset := by
  rw [statements, Slice.filterMap_statementStarts, List.pairwise_filterMap]
  refine (block.pairwise_heads .topLevel).imp ?_
  intro left right hlt outline ho other ho'
  rw [offset_statement? ho, offset_statement? ho']
  exact hlt

/-- Each recogniser may be tried by itself at all the starts: sorting what they find gives the
statements of the block. -/
theorem mergeSort_recognised (hf : ∀ cell ∈ block.cells, cell.IsFaithful) :
    ((Recogniser.all.flatMap fun recogniser => (block.statementStarts .topLevel).filterMap
      fun start => recogniser.read? levels below (block.fromOffset start)).mergeSort
        fun left right => left.label.offset ≤ right.label.offset) =
      statements levels below block := by
  have hpass (recogniser : Recogniser) : ((block.statementStarts .topLevel).filterMap fun start =>
      recogniser.read? levels below (block.fromOffset start)) =
        (block.heads .topLevel).filterMap (Recogniser.read? levels below · recogniser) :=
    Slice.filterMap_statementStarts .topLevel block (Recogniser.read? levels below · recogniser)
  have hstatements : statements levels below block =
      (block.heads .topLevel).filterMap
        fun head => Recogniser.all.findSome? (Recogniser.read? levels below head) := by
    rw [statements, Slice.filterMap_statementStarts]
    exact congrArg (List.filterMap · _) (funext fun head => Recogniser.statement?_eq)
  refine mergeSort_eq_of_perm (fun outline : Outline => outline.label.offset) ?_ pairwise_statements
  have hnodup : Recogniser.all.Nodup := by decide
  simp only [hpass, hstatements]
  refine flatMap_filterMap_perm (Recogniser.read? levels below) _ ?_ hnodup
  intro head hm first second h h'
  have hcells : ∀ cell ∈ head.cells, cell.IsFaithful := by
    intro cell hc
    exact hf cell ((Slice.isTail_of_mem_heads hm).isPart.subset hc)
  exact Recogniser.eq_of_isSome hcells h h'

end CodeOutline.Outline
