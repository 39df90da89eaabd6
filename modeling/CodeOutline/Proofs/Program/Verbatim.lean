import CodeOutline.Proofs.Program.Print
import CodeOutline.Source.Basic

namespace CodeOutline.Program

open Delimiter (joined)

variable {left right rest chars : List Char} {c : Char}

def IsVerbatim (chars : List Char) : Prop :=
  (∀ c ∈ chars, isQuote c = false) ∧ hasMarker chars = false

theorem not_isQuote (h : isQuote c = false) : c ≠ '"' ∧ c ≠ '\'' ∧ c ≠ '\x60' ∧ c ≠ '#' := by
  simp only [isQuote, List.contains_eq_mem, decide_eq_false_iff_not, List.mem_cons,
    List.not_mem_nil, or_false, not_or] at h
  exact h

theorem IsVerbatim.of_cons (h : IsVerbatim (c :: rest)) : isQuote c = false ∧ IsVerbatim rest ∧
    (c = '/' → ∀ d ∈ rest.head?, d ≠ '/' ∧ d ≠ '*') := by
  obtain ⟨hq, hm⟩ := h
  rw [hasMarker, Bool.or_eq_false_iff] at hm
  refine ⟨hq c List.mem_cons_self, ⟨fun d hd => hq d (List.mem_cons_of_mem _ hd), hm.2⟩, ?_⟩
  rintro rfl d hd
  have h := hm.1
  rw [hd] at h
  simpa using h

theorem IsVerbatim.runFrom (h : IsVerbatim chars) (lineStart : Bool) :
    Mask.runFrom (.code lineStart) chars = chars := by
  induction chars generalizing lineStart with
  | nil => rfl
  | cons c rest ih =>
    obtain ⟨hq, hrest, hslash⟩ := h.of_cons
    obtain ⟨h1, h2, h3, h4⟩ := not_isQuote hq
    have hline : ¬ (c = '/' ∧ rest.head? = some '/') := fun ⟨hc, hd⟩ => (hslash hc _ hd).1 rfl
    have hblock : ¬ (c = '/' ∧ rest.head? = some '*') := fun ⟨hc, hd⟩ => (hslash hc _ hd).2 rfl
    simp only [Mask.runFrom, Mask.Mode.step, hline, hblock, h1, h2, h3, h4, or_self, false_and,
      if_false, if_true, ih hrest, List.singleton_append]

theorem IsVerbatim.cons (hq : isQuote c = false) (h : IsVerbatim rest)
    (hs : c = '/' → ∀ d ∈ rest.head?, d ≠ '/' ∧ d ≠ '*') : IsVerbatim (c :: rest) := by
  refine ⟨fun d hd => ?_, ?_⟩
  · rcases List.mem_cons.1 hd with rfl | hd
    · exact hq
    · exact h.1 d hd
  · rw [hasMarker, h.2, Bool.or_false, Bool.and_eq_false_iff]
    by_cases hc : c = '/'
    · right
      rw [Option.any_eq_false]
      intro d hd
      simpa using hs hc d hd
    · exact .inl (decide_eq_false hc)

/-- Text that may stand before any verbatim text. -/
def Keeps (chars : List Char) : Prop :=
  ∀ rest, IsVerbatim rest → IsVerbatim (chars ++ rest)

/-- Text that may stand before a verbatim text, unless a slash at its end begins a comment then. -/
def Opens (chars : List Char) : Prop :=
  ∀ rest, IsVerbatim rest → (∀ d ∈ rest.head?, d ≠ '/' ∧ d ≠ '*') → IsVerbatim (chars ++ rest)

theorem Keeps.opens (h : Keeps chars) : Opens chars :=
  fun rest hr _ => h rest hr

theorem Keeps.append (hl : Keeps left) (hr : Keeps right) : Keeps (left ++ right) := by
  intro rest h
  rw [List.append_assoc]
  exact hl _ (hr rest h)

theorem Keeps.append_opens (hl : Keeps left) (hr : Opens right) : Opens (left ++ right) := by
  intro rest h hd
  rw [List.append_assoc]
  exact hl _ (hr rest h hd)

theorem keeps_nil : Keeps [] :=
  fun _ h => h

theorem keeps_of_forall (h : ∀ c ∈ chars, isQuote c = false ∧ c ≠ '/') : Keeps chars := by
  intro rest hr
  induction chars with
  | nil => exact hr
  | cons c chars ih =>
    obtain ⟨hq, hc⟩ := h c List.mem_cons_self
    exact (ih fun d hd => h d (List.mem_cons_of_mem _ hd)).cons hq fun he => absurd he hc

/-- A character that ends an expression. -/
def isEnd (c : Char) : Bool :=
  [' ', '\n', '(', ')', '{', '}', ',', ';', '='].contains c

theorem isEnd_spec (h : isEnd c) : isQuote c = false ∧ c ≠ '/' ∧ c ≠ '*' := by
  simp only [isEnd, List.contains_eq_mem, decide_eq_true_eq, List.mem_cons, List.not_mem_nil,
    or_false] at h
  rcases h with rfl | rfl | rfl | rfl | rfl | rfl | rfl | rfl | rfl <;> decide

theorem Keeps.cons (hc : isEnd c) (h : Keeps right) : Keeps (c :: right) := by
  intro rest hr
  obtain ⟨hq, hs, _⟩ := isEnd_spec hc
  exact (h rest hr).cons hq fun he => absurd he hs

theorem Opens.cons (hc : isEnd c) (h : Opens right) : Opens (c :: right) := by
  intro rest hr hd
  obtain ⟨hq, hs, _⟩ := isEnd_spec hc
  exact (h rest hr hd).cons hq fun he => absurd he hs

theorem Opens.close (h : Opens left) (hc : isEnd c) (hr : Keeps right) :
    Keeps (left ++ c :: right) := by
  intro rest hv
  have hv' := hr.cons hc rest hv
  rw [List.append_assoc]
  refine h _ hv' fun d hd => ?_
  cases hd
  exact (isEnd_spec hc).2

theorem Opens.close_opens (h : Opens left) (hc : isEnd c) (hr : Opens right) :
    Opens (left ++ c :: right) := by
  intro rest hv hd
  have hv' := hr.cons hc rest hv hd
  rw [List.append_assoc]
  refine h _ hv' fun d hd => ?_
  cases hd
  exact (isEnd_spec hc).2

theorem opens_joined {separator : Char} (hs : isEnd separator) (pieces : List (List Char))
    (h : ∀ piece ∈ pieces, Opens piece) : Opens (joined separator pieces) := by
  induction pieces with
  | nil => exact keeps_nil.opens
  | cons first others ih =>
    have hf := h first List.mem_cons_self
    cases others with
    | nil => exact hf
    | cons second others =>
      rw [Delimiter.joined_cons]
      exact hf.close_opens hs (ih fun piece hm => h piece (List.mem_cons_of_mem _ hm))

theorem Gaps.keeps (gaps : Gaps) : Keeps gaps.print :=
  keeps_of_forall (forall_mem (P := fun c => isQuote c = false ∧ c ≠ '/') (by decide) (by decide)
    gaps)

theorem keeps_of_isNameChar (h : ∀ c ∈ chars, CharClass.isNameChar c) : Keeps chars := by
  apply keeps_of_forall
  intro c hc
  have hq := CharClass.of_isNameChar (fun c => !isQuote c && c != '/') (by decide +kernel) (h c hc)
  simpa using hq

theorem keeps_of_isName (h : CharClass.IsName chars) : Keeps chars :=
  keeps_of_isNameChar (fun _ hc => h.isNameChar hc)

theorem Identifier.keeps (word : Identifier) : Keeps word.chars :=
  keeps_of_isNameChar word.isNameChar

theorem Joint.keeps (joint : Joint) : Keeps joint.print := by
  apply keeps_of_forall
  intro c hc
  obtain ⟨mark, _, rfl⟩ := List.mem_map.1 hc
  rcases mark with ⟨gap⟩ | _
  · cases gap <;> decide
  · decide

theorem TypeName.keeps_tail (more : List (Joint × Identifier)) : Keeps (tail more) := by
  induction more with
  | nil => exact keeps_nil
  | cons unit more ih => exact (unit.1.keeps.append unit.2.keeps).append ih

theorem TypeName.keeps (type : TypeName) : Keeps type.print :=
  type.head.keeps.append ((keeps_tail type.more).append type.last.keeps)

theorem Expression.opens (expression : Expression) : Opens expression.chars := by
  obtain ⟨_, hq, _, hm⟩ := expression.spec
  intro rest hr hd
  generalize expression.chars = chars at hq hm
  induction chars with
  | nil => exact hr
  | cons c chars ih =>
    obtain ⟨hc, hv, hs⟩ := IsVerbatim.of_cons ⟨hq, hm⟩
    refine (ih hv.1 hv.2).cons hc fun he => ?_
    cases chars with
    | nil => exact hd
    | cons d chars => exact hs he

theorem Phrase.opens (phrase : Phrase) : Opens phrase.print := by
  refine phrase.before.keeps.append_opens fun rest hr hd => ?_
  rw [List.append_assoc]
  apply phrase.expression.opens _ (phrase.after.keeps rest hr)
  exact Gaps.forall_head (P := fun d => d ≠ '/' ∧ d ≠ '*') (by decide) (by decide) _ hd

theorem opens_printInitializer (initializer : Option Phrase) :
    Opens (printInitializer initializer) := by
  cases initializer with
  | none => exact keeps_nil.opens
  | some phrase => exact phrase.opens.cons rfl

theorem Variable.opens (declared : Variable) : Opens declared.print :=
  declared.type.keeps.append_opens (declared.name.keeps.append_opens
    (declared.gaps.keeps.append_opens (opens_printInitializer declared.initializer)))

theorem Call.keeps (called : Call) : Keeps called.print := by
  refine called.name.keeps.append (called.gaps.keeps.append (Keeps.cons rfl ?_))
  refine Opens.close (called.inside.keeps.append_opens (opens_joined rfl _ ?_)) rfl keeps_nil
  intro piece hm
  obtain ⟨phrase, _, rfl⟩ := List.mem_map.1 hm
  exact phrase.opens

theorem Result.opens (given : Result) : Opens given.print := by
  rcases given with gaps | ⟨gap, phrase⟩ | ⟨gap, before, called, after⟩
  · exact gaps.keeps.opens
  · exact (Gaps.keeps [gap]).append_opens phrase.opens
  · exact ((Gaps.keeps [gap]).append (before.keeps.append
      (called.keeps.append after.keeps))).opens

theorem Guard.keeps (guard : Guard) : Keeps guard.print :=
  guard.before.keeps.append (Keeps.cons rfl (guard.condition.opens.close rfl guard.after.keeps))

theorem Clause.opens (clause : Clause) : Opens clause.print := by
  cases clause with
  | blank gaps => exact gaps.keeps.opens
  | value phrase => exact phrase.opens

theorem Init.opens (init : Init) : Opens init.print := by
  cases init with
  | blank gaps => exact gaps.keeps.opens
  | declaration before declared => exact before.keeps.append_opens declared.opens
  | assignment before target gaps phrase =>
    exact before.keeps.append_opens (target.keeps.append_opens (gaps.keeps.append_opens
      (phrase.opens.cons rfl)))
  | value phrase => exact phrase.opens

theorem Header.keeps (header : Header) : Keeps header.print := by
  refine header.before.keeps.append (Keeps.cons rfl (Opens.close (opens_joined rfl _ ?_) rfl
    header.after.keeps))
  simp only [List.mem_cons, List.not_mem_nil, or_false, forall_eq_or_imp, forall_eq]
  exact ⟨header.init.opens, header.test.opens, header.update.opens⟩

theorem keeps_semicolon : Keeps [';'] :=
  keeps_nil.cons rfl

theorem Keeps.braces (hl : Keeps left) (hr : Keeps right) : Keeps ('{' :: (left ++ '}' :: right)) :=
  (hl.append (hr.cons rfl)).cons rfl

mutual

theorem Statement.keeps (statement : Statement) : Keeps statement.print := by
  cases statement with
  | declaration declared => exact declared.opens.close rfl keeps_nil
  | call called gaps => exact called.keeps.append (gaps.keeps.append keeps_semicolon)
  | result given =>
    exact (keeps_of_isName isName_return).append (given.opens.close rfl keeps_nil)
  | conditional guard body alternative =>
    exact (keeps_of_isName isName_if).append (guard.keeps.append
      (body.keeps.braces alternative.keeps))
  | forLoop header body =>
    exact (keeps_of_isName isName_for).append (header.keeps.append
      (body.keeps.braces keeps_nil))
  | whileLoop guard body =>
    exact (keeps_of_isName isName_while).append (guard.keeps.append
      (body.keeps.braces keeps_nil))

theorem Alternative.keeps (alternative : Alternative) : Keeps alternative.print := by
  cases alternative with
  | none => exact keeps_nil
  | chain before gap between guard body alternative =>
    exact before.keeps.append ((keeps_of_isName isName_else).append
      ((Gaps.keeps [gap]).append (between.keeps.append ((keeps_of_isName isName_if).append
        (guard.keeps.append (body.keeps.braces alternative.keeps))))))
  | block before between body =>
    exact before.keeps.append ((keeps_of_isName isName_else).append
      (between.keeps.append (body.keeps.braces keeps_nil)))

theorem Block.keeps (block : Block) : Keeps block.print := by
  cases block with
  | done gaps => exact gaps.keeps
  | cons gaps statement rest => exact gaps.keeps.append (statement.keeps.append rest.keeps)

end

theorem Formal.keeps (formal : Formal) : Keeps formal.print :=
  formal.before.keeps.append (formal.type.keeps.append
    (formal.name.keeps.append formal.after.keeps))

theorem Function.keeps (defined : Function) : Keeps defined.print := by
  refine defined.type.keeps.append (defined.name.keeps.append (defined.gaps.keeps.append
    (Keeps.cons rfl (Opens.close (defined.inside.keeps.append_opens (opens_joined rfl _ ?_)) rfl
      (defined.after.keeps.append (defined.body.keeps.braces keeps_nil))))))
  intro piece hm
  obtain ⟨formal, _, rfl⟩ := List.mem_map.1 hm
  exact formal.keeps.opens

theorem Member.keeps (member : Member) : Keeps member.print := by
  cases member with
  | declaration declared => exact declared.opens.close rfl keeps_nil
  | function defined => exact defined.keeps

theorem keeps_printMembers (members : List (Gaps × Member)) : Keeps (printMembers members) := by
  induction members with
  | nil => exact keeps_nil
  | cons entry others ih => exact (entry.1.keeps.append entry.2.keeps).append ih

theorem chars_printed (members : List (Gaps × Member)) (gaps : Gaps) :
    Mask.chars (printMembers members ++ gaps.print) = printMembers members ++ gaps.print := by
  have hnil : IsVerbatim [] := ⟨fun c hc => absurd hc List.not_mem_nil, rfl⟩
  have hk := (keeps_printMembers members).append gaps.keeps [] hnil
  rw [List.append_nil] at hk
  exact hk.runFrom true

/-- Masking changes nothing in a printed program. -/
theorem masked_eq_cells (program : Program) :
    (Source.ofString program.text).masked = (Source.ofString program.text).cells := by
  simp only [Source.ofString, text, String.toList_ofList, chars_printed]

end CodeOutline.Program
