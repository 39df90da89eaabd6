import CodeOutline.Diagnostic
import CodeOutline.Proofs.Text.Scan

namespace CodeOutline

namespace Text

variable {text : List Char} {message : List Char}

theorem exists_word (h : ¬∀ c ∈ text, CharClass.isSpace c) :
    ∃ c ∈ text, CharClass.isSpace c = false := by
  simpa using h

theorem isPrefix_trimRight (text : List Char) : trimRight text <+: text := by
  have hsuffix := List.dropWhile_suffix CharClass.isSpace (l := text.reverse)
  rwa [← List.reverse_prefix, List.reverse_reverse] at hsuffix

theorem isPrefix_of_lineText? (h : lineText? text = some message) : message <+: text := by
  have hline := List.takeWhile_prefix (!isLineBreak ·) (l := text)
  rw [lineText?] at h
  split at h
  · obtain ⟨_, he⟩ := Option.ite_none_left_eq_some.1 h
    cases he
    exact (List.take_prefix _ _).trans hline
  · cases h
    exact (isPrefix_trimRight _).trans hline

theorem lineText?_append (text more : List Char) :
    lineText? (text ++ '\n' :: more) = lineText? text := by
  rw [lineText?, lineText?, takeWhile_append (by decide)]

theorem lineText?_isSome {c : Char} {rest : List Char} (h : CharClass.isSpace c = false) :
    (lineText? (c :: rest)).isSome := by
  have hc : isLineBreak c = false := by
    rw [isLineBreak, decide_eq_false_iff_not]
    rintro rfl
    exact absurd h (by decide)
  rw [lineText?, List.takeWhile_cons_of_pos (by rw [hc]; rfl)]
  split
  · rfl
  · rfl

theorem lineEnd_append {more : List Char} (h : ∃ c ∈ text, CharClass.isSpace c = false) :
    lineEnd (text ++ more) = lineEnd text := by
  obtain ⟨c, hm, hc⟩ := h
  have hne : (text.takeWhile CharClass.isSpace).length ≠ text.length := by
    intro hl
    have hall := (List.takeWhile_prefix CharClass.isSpace).eq_of_length hl
    rw [← hall] at hm
    exact Bool.false_ne_true (hc.symm.trans (List.mem_takeWhile_imp hm))
  have hspaces : (text ++ more).takeWhile CharClass.isSpace = text.takeWhile CharClass.isSpace := by
    rw [List.takeWhile_append, if_neg hne]
  have hle := (List.takeWhile_prefix CharClass.isSpace (l := text)).length_le
  have hne' : (text.takeWhile CharClass.isSpace).length ≠ (text ++ more).length := by
    rw [List.length_append]
    omega
  rw [lineEnd, lineEnd]
  simp only [hspaces, if_neg hne, if_neg hne']

theorem lineEnd_of_blank (h : ∀ c ∈ text, CharClass.isSpace c) : lineEnd text = text.length := by
  rw [lineEnd]
  simp only [List.takeWhile_eq_self_iff.2 h, if_true]

theorem lineEnd_le_length (text : List Char) : lineEnd text ≤ text.length := by
  have hspaces := (List.takeWhile_prefix CharClass.isSpace (l := text)).length_le
  have hlines := (List.dropWhile_suffix (!isLineBreak ·)
    (l := (text.takeWhile CharClass.isSpace).reverse)).length_le
  rw [List.length_reverse] at hlines
  rw [lineEnd]
  split
  · exact hspaces
  · omega

theorem lineEnd_lastBreak {front after word : List Char}
    (hs : ∀ c ∈ front ++ '\n' :: after, CharClass.isSpace c) (ha : '\n' ∉ after)
    (hw : ∃ c rest, word = c :: rest ∧ CharClass.isSpace c = false) :
    lineEnd (front ++ '\n' :: after ++ word) = front.length := by
  obtain ⟨c, rest, rfl, hc⟩ := hw
  have hspaces : (front ++ '\n' :: after ++ c :: rest).takeWhile CharClass.isSpace =
      front ++ '\n' :: after := by
    rw [List.takeWhile_append_of_pos hs, List.takeWhile_cons_of_neg (by simp [hc]),
      List.append_nil]
  have hlength : (front ++ '\n' :: after).length ≠ (front ++ '\n' :: after ++ c :: rest).length := by
    simp
  have hbreak : ∀ c ∈ after.reverse, (!isLineBreak c) = true := by
    intro c hc
    have hne : c ≠ '\n' := fun he => ha (he ▸ List.mem_reverse.1 hc)
    rw [isLineBreak, decide_eq_false hne]
    rfl
  have hreverse : (front ++ '\n' :: after).reverse = after.reverse ++ '\n' :: front.reverse := by
    simp
  rw [lineEnd]
  simp only [hspaces, if_neg hlength]
  rw [hreverse, List.dropWhile_append_of_pos hbreak, List.dropWhile_cons_of_neg (by decide),
    List.length_cons, List.length_reverse, Nat.add_sub_cancel]

theorem drop_lineEnd {blank : List Char} (h : ∀ c ∈ blank, CharClass.isSpace c)
    (more : List Char) : ∃ gap rest, '\n' :: more = gap ++ rest ∧
      (∀ c ∈ gap, CharClass.isSpace c) ∧ (∀ c ∈ rest.head?, c = '\n') ∧
      (blank ++ '\n' :: more).drop (lineEnd (blank ++ '\n' :: more)) = rest := by
  have hspaces : ∀ c ∈ '\n' :: more.takeWhile CharClass.isSpace, CharClass.isSpace c :=
    List.forall_mem_cons.2 ⟨rfl, fun c hc => List.mem_takeWhile_imp hc⟩
  have happend := List.takeWhile_append_dropWhile (p := CharClass.isSpace) (l := more)
  cases hword : more.dropWhile CharClass.isSpace with
  | nil =>
    rw [hword, List.append_nil] at happend
    rw [happend] at hspaces
    refine ⟨'\n' :: more, [], (List.append_nil _).symm, hspaces, by simp, ?_⟩
    rw [lineEnd_of_blank (List.forall_mem_append.2 ⟨h, hspaces⟩), List.drop_length]
  | cons c word =>
    have hc : CharClass.isSpace c = false := by
      have hhead := List.head?_dropWhile_not CharClass.isSpace more
      rwa [hword] at hhead
    obtain ⟨after, before, hlast, hafter⟩ := List.eq_append_cons_of_mem
      (show '\n' ∈ ('\n' :: more.takeWhile CharClass.isSpace).reverse by simp)
    have hsplit : '\n' :: more.takeWhile CharClass.isSpace =
        before.reverse ++ '\n' :: after.reverse := by
      rw [← List.reverse_inj, hlast]
      simp
    have hmore : '\n' :: more = before.reverse ++ '\n' :: after.reverse ++ c :: word := by
      rw [← hsplit, List.cons_append, ← hword, happend]
    rw [hsplit] at hspaces
    have hend : lineEnd (blank ++ before.reverse ++ '\n' :: after.reverse ++ c :: word) =
        (blank ++ before.reverse).length := by
      refine lineEnd_lastBreak ?_ (mt List.mem_reverse.1 hafter) ⟨c, word, rfl, hc⟩
      rw [List.append_assoc]
      exact List.forall_mem_append.2 ⟨h, hspaces⟩
    refine ⟨before.reverse, '\n' :: after.reverse ++ c :: word, ?_, ?_, ?_, ?_⟩
    · rw [hmore, List.append_assoc]
    · exact fun d hd => hspaces d (List.mem_append_left _ hd)
    · exact fun d hd => (Option.some.inj hd).symm
    · rw [hmore, ← List.append_assoc, ← List.append_assoc, hend, List.append_assoc, List.drop_left]

end Text

namespace CompilerMessage

variable {test : Char → Bool} {text word line rest gap blank more : List Char} {severity : String}
  {diagnostic : Option Diagnostic}

/-- A word of at least one character, all of which pass the test. -/
def IsRun (test : Char → Bool) (word : List Char) : Prop :=
  word ≠ [] ∧ ∀ c ∈ word, test c

/-- What the path of a message consists of. -/
def isPathChar (c : Char) : Bool :=
  c ≠ ':' ∧ c ≠ '\n'

/-- A word before a colon, and what follows the colon. -/
def field? (test : Char → Bool) (text : List Char) : Option (List Char × List Char) :=
  (Text.run? test text).bind fun (word, rest) => (Text.strip? [':'] rest).map (word, ·)

/-- The line number of a message, which stands between a path and a column, and what follows. -/
def location? (text : List Char) : Option (List Char × List Char) :=
  (field? isPathChar text).bind fun (_, rest) =>
    (field? CharClass.isDecimal rest).bind fun (line, rest) =>
      (field? CharClass.isDecimal rest).map fun (_, rest) => (line, rest)

/-- The severity behind white space, and what follows. -/
def grade? (text : List Char) : Option (String × List Char) :=
  (Text.run? CharClass.isSpace text).bind fun (_, rest) => severity? rest

theorem read?_eq (text : List Char) : read? text =
    (location? text).bind fun (line, rest) => (grade? rest).bind fun (severity, rest) =>
      (body? rest).map fun (message, after) =>
        ((Text.decimal? UInt64.size line).map
          (⟨·, severity ++ ": " ++ String.ofList message⟩), after) := by
  simp only [read?, location?, field?, grade?, Option.bind_eq_bind, Option.bind_assoc,
    Option.map_eq_bind, Option.bind_some, Function.comp_def]
  rfl

theorem field?_eq_some (h : test ':' = false) :
    field? test text = some (word, rest) ↔ IsRun test word ∧ text = word ++ ':' :: rest := by
  rw [field?, Option.bind_eq_some_iff]
  constructor
  · rintro ⟨⟨taken, after⟩, hr, hs⟩
    obtain ⟨after', ha, he⟩ := Option.map_eq_some_iff.1 hs
    cases he
    obtain ⟨rfl, hne, hall, _⟩ := Text.run?_eq_some.1 hr
    rw [Text.strip?_eq_some.1 ha]
    exact ⟨⟨hne, hall⟩, rfl⟩
  · rintro ⟨⟨hne, hall⟩, rfl⟩
    refine ⟨(word, ':' :: rest), Text.run?_eq_some.2 ⟨rfl, hne, hall, ?_⟩, rfl⟩
    intro c hc
    cases hc
    exact h

theorem field?_append (h : test '\n' = false) (text more : List Char) :
    field? test (text ++ '\n' :: more) =
      (field? test text).map fun (word, rest) => (word, rest ++ '\n' :: more) := by
  have hbreak : ∀ c ∈ ('\n' :: more).head?, test c = false := by
    intro c hc
    cases hc
    exact h
  have hcolon : '\n' ∉ [':'] := by decide
  rw [field?, field?, Text.run?_append (.inr hbreak)]
  cases Text.run? test text with
  | none => rfl
  | some result =>
    simp only [Option.map_some, Option.bind_some, Text.strip?_append hcolon, Option.map_map]
    rfl

theorem location?_append (text more : List Char) : location? (text ++ '\n' :: more) =
    (location? text).map fun (line, rest) => (line, rest ++ '\n' :: more) := by
  have hpath : isPathChar '\n' = false := by decide
  have hdigit : CharClass.isDecimal '\n' = false := by decide
  rw [location?, location?, field?_append hpath]
  cases field? isPathChar text with
  | none => rfl
  | some path =>
    simp only [Option.map_some, Option.bind_some, field?_append hdigit]
    cases field? CharClass.isDecimal path.2 with
    | none => rfl
    | some line =>
      simp only [Option.map_some, Option.bind_some, field?_append hdigit, Option.map_map]
      rfl

/-- The text begins with a path, a line and a column, of which the line is wanted. -/
def Located (line rest text : List Char) : Prop :=
  ∃ path column, IsRun isPathChar path ∧ IsRun CharClass.isDecimal line ∧
    IsRun CharClass.isDecimal column ∧
    text = path ++ ':' :: (line ++ ':' :: (column ++ ':' :: rest))

theorem location?_eq_some : location? text = some (line, rest) ↔ Located line rest text := by
  have hpath : isPathChar ':' = false := by decide
  have hdigit : CharClass.isDecimal ':' = false := by decide
  simp only [location?, Option.bind_eq_some_iff, Option.map_eq_some_iff, Prod.exists,
    field?_eq_some hpath, field?_eq_some hdigit, Prod.mk.injEq]
  constructor
  · rintro ⟨path, _, ⟨hp, rfl⟩, _, _, ⟨hl, rfl⟩, column, _, ⟨hc, rfl⟩, rfl, rfl⟩
    exact ⟨path, column, hp, hl, hc, rfl⟩
  · rintro ⟨path, column, hp, hl, hc, rfl⟩
    exact ⟨path, _, ⟨hp, rfl⟩, line, _, ⟨hl, rfl⟩, column, rest, ⟨hc, rfl⟩, rfl, rfl⟩

theorem severity?_eq_some (h : severity? text = some (severity, rest)) :
    severity ∈ severities ∧ text = severity.toList ++ ':' :: rest := by
  obtain ⟨_, hm, hs⟩ := List.exists_of_findSome?_eq_some h
  obtain ⟨_, hr, he⟩ := Option.map_eq_some_iff.1 hs
  cases he
  rw [Text.strip?_eq_some.1 hr, List.append_assoc]
  exact ⟨hm, rfl⟩

theorem severity?_of_mem (h : severity ∈ severities) (rest : List Char) :
    severity? (severity.toList ++ ':' :: rest) = some (severity, rest) := by
  simp only [severities, List.mem_cons, List.not_mem_nil, or_false] at h
  obtain rfl | rfl | rfl := h <;> rfl

theorem severity?_append (text more : List Char) : severity? (text ++ '\n' :: more) =
    (severity? text).map fun (severity, rest) => (severity, rest ++ '\n' :: more) := by
  have hword : ∀ severity ∈ severities, '\n' ∉ severity.toList ++ [':'] := by decide
  rw [severity?, severity?]
  generalize severities = words at hword
  induction words with
  | nil => rfl
  | cons word words ih =>
    obtain ⟨hw, hws⟩ := List.forall_mem_cons.1 hword
    rw [List.findSome?_cons, List.findSome?_cons, Text.strip?_append hw]
    cases Text.strip? (word.toList ++ [':']) text with
    | none => exact ih hws
    | some rest => rfl

theorem grade?_eq_some : grade? text = some (severity, rest) ↔
    ∃ gap, IsRun CharClass.isSpace gap ∧ severity ∈ severities ∧
      text = gap ++ (severity.toList ++ ':' :: rest) := by
  constructor
  · intro h
    obtain ⟨⟨gap, _⟩, hr, hs⟩ := Option.bind_eq_some_iff.1 h
    obtain ⟨rfl, hne, hgap, -⟩ := Text.run?_eq_some.1 hr
    obtain ⟨hknown, rfl⟩ := severity?_eq_some hs
    exact ⟨gap, ⟨hne, hgap⟩, hknown, rfl⟩
  · rintro ⟨gap, ⟨hne, hgap⟩, hknown, rfl⟩
    have hhead : ∀ c ∈ (severity.toList ++ ':' :: rest).head?, CharClass.isSpace c = false := by
      simp only [severities, List.mem_cons, List.not_mem_nil, or_false] at hknown
      obtain rfl | rfl | rfl := hknown <;> exact fun c hc => by cases hc; decide
    rw [grade?, Text.run?_eq_some.2 ⟨rfl, hne, hgap, hhead⟩]
    exact severity?_of_mem hknown rest

theorem grade?_append (h : ∃ c ∈ text, CharClass.isSpace c = false) (more : List Char) :
    grade? (text ++ '\n' :: more) =
      (grade? text).map fun (severity, rest) => (severity, rest ++ '\n' :: more) := by
  rw [grade?, grade?, Text.run?_append (.inl h)]
  cases Text.run? CharClass.isSpace text with
  | none => rfl
  | some result => exact severity?_append result.2 more

/-- What a reader leaves of a text grows with the text by the next line and all behind it, less the
white space that it passes over as well if it had left nothing. -/
inductive Continues (more : List Char) : List Char → List Char → Prop where
  | kept (after : List Char) : Continues more after (after ++ '\n' :: more)
  | passed {gap after : List Char} (split : '\n' :: more = gap ++ after)
      (spaces : ∀ c ∈ gap, CharClass.isSpace c) (line : ∀ c ∈ after.head?, c = '\n') :
      Continues more [] after

theorem body?_append (h : ∃ c ∈ text, CharClass.isSpace c = false) (more : List Char) :
    Option.Rel (fun found found' => found.1 = found'.1 ∧ Continues more found.2 found'.2)
      (body? text) (body? (text ++ '\n' :: more)) := by
  rw [body?, body?, Text.run?_append (.inl h)]
  cases hr : Text.run? CharClass.isSpace text with
  | none => exact .none
  | some result =>
    obtain ⟨spaces, rest⟩ := result
    obtain ⟨rfl, -, hspaces, hrest⟩ := Text.run?_eq_some.1 hr
    obtain ⟨c, rest, rfl⟩ : ∃ c tail, rest = c :: tail := by
      refine List.exists_cons_of_ne_nil ?_
      rintro rfl
      obtain ⟨c, hm, hc⟩ := h
      rw [List.append_nil] at hm
      exact Bool.false_ne_true (hc.symm.trans (hspaces c hm))
    have hsome : (Text.lineText? (c :: rest)).isSome := Text.lineText?_isSome (hrest c rfl)
    obtain ⟨message, hm⟩ := Option.isSome_iff_exists.1 hsome
    have hm' : Text.lineText? (c :: rest ++ '\n' :: more) = some message := by
      rw [Text.lineText?_append, hm]
    have hle := (Text.isPrefix_of_lineText? hm).length_le
    simp only [Option.map_some, Option.bind_some, hm, hm', List.drop_append_of_le_length hle]
    refine .some ⟨rfl, ?_⟩
    generalize (c :: rest).drop message.length = after
    by_cases hblank : ∀ d ∈ after, CharClass.isSpace d
    · obtain ⟨gap, left, hsplit, hgap, hline, hdrop⟩ := Text.drop_lineEnd hblank more
      rw [Text.lineEnd_of_blank hblank, List.drop_length, hdrop]
      exact .passed hsplit hgap hline
    · have hend : Text.lineEnd after ≤ after.length := Text.lineEnd_le_length after
      rw [Text.lineEnd_append (Text.exists_word hblank), List.drop_append_of_le_length hend]
      exact .kept _

/-- A message has begun that only white space follows, where its severity or its words should be. -/
inductive IsUnfinished (text : List Char) : Prop where
  | ungraded {line blank : List Char} (located : Located line blank text)
      (spaces : ∀ c ∈ blank, CharClass.isSpace c)
  | wordless {line gap blank : List Char} {severity : String}
      (located : Located line (gap ++ (severity.toList ++ ':' :: blank)) text)
      (run : IsRun CharClass.isSpace gap) (known : severity ∈ severities)
      (spaces : ∀ c ∈ blank, CharClass.isSpace c)

theorem isUnfinished_iff : IsUnfinished text ↔ ∃ line rest, location? text = some (line, rest) ∧
    ((∀ c ∈ rest, CharClass.isSpace c) ∨
      ∃ severity blank, grade? rest = some (severity, blank) ∧
        ∀ c ∈ blank, CharClass.isSpace c) := by
  constructor
  · intro h
    cases h with
    | ungraded located spaces => exact ⟨_, _, location?_eq_some.2 located, .inl spaces⟩
    | wordless located run known spaces =>
      exact ⟨_, _, location?_eq_some.2 located,
        .inr ⟨_, _, grade?_eq_some.2 ⟨_, run, known, rfl⟩, spaces⟩⟩
  · rintro ⟨line, rest, hl, hb | ⟨severity, blank, hg, hb⟩⟩
    · exact .ungraded (location?_eq_some.1 hl) hb
    · obtain ⟨gap, hgap, hknown, rfl⟩ := grade?_eq_some.1 hg
      exact .wordless (location?_eq_some.1 hl) hgap hknown hb

instance (text : List Char) : Decidable (IsUnfinished text) :=
  decidable_of_iff ((location? text).any fun (_, rest) => rest.all CharClass.isSpace ||
      (grade? rest).any fun (_, blank) => blank.all CharClass.isSpace) <| by
    simp [isUnfinished_iff, Option.any_eq_true]

/-- Apart from unfinished messages, what is read at the start of a text does not depend on the lines
behind it. -/
theorem read?_append (h : ¬IsUnfinished text) (more : List Char) :
    Option.Rel (fun found found' => found.1 = found'.1 ∧ Continues more found.2 found'.2)
      (read? text) (read? (text ++ '\n' :: more)) := by
  rw [read?_eq, read?_eq, location?_append]
  cases hl : location? text with
  | none => exact .none
  | some result =>
    obtain ⟨line, rest⟩ := result
    have hlocated := location?_eq_some.1 hl
    have hrest := Text.exists_word fun hb => h (.ungraded hlocated hb)
    simp only [Option.map_some, Option.bind_some, grade?_append hrest]
    cases hg : grade? rest with
    | none => exact .none
    | some result =>
      obtain ⟨severity, words⟩ := result
      obtain ⟨gap, hgap, hknown, rfl⟩ := grade?_eq_some.1 hg
      have hwords := Text.exists_word fun hb => h (.wordless hlocated hgap hknown hb)
      have hbody := body?_append hwords more
      simp only [Option.map_some, Option.bind_some]
      generalize body? words = found, body? (words ++ '\n' :: more) = found' at hbody
      cases hbody with
      | none => exact .none
      | @some found found' hsame =>
        obtain ⟨message, after⟩ := found
        obtain ⟨message', after'⟩ := found'
        obtain ⟨rfl, hafter⟩ := hsame
        exact .some ⟨rfl, hafter⟩

theorem read?_blank (h : ∀ c ∈ gap, CharClass.isSpace c) (hr : ∀ c ∈ rest.head?, c = '\n') :
    read? (gap ++ rest) = none := by
  have hcolon : ∀ after, rest ≠ ':' :: after := by
    rintro after rfl
    exact absurd (hr ':' rfl) (by decide)
  have hlocation : location? (gap ++ rest) = none := by
    rw [Option.eq_none_iff_forall_ne_some]
    rintro ⟨line, after⟩ hl
    obtain ⟨path, column, ⟨-, hp⟩, -, -, he⟩ := location?_eq_some.1 hl
    obtain ⟨word, rfl, hw⟩ | ⟨word, rfl, hw⟩ := List.append_eq_append_iff.1 he
    · cases word with
      | nil => exact hcolon _ hw
      | cons c word =>
        have hc : c = '\n' := hr c (by rw [hw]; rfl)
        exact absurd (hp c (by simp)) (by rw [hc]; decide)
    · cases word with
      | nil => exact hcolon _ hw.symm
      | cons c word =>
        have hc : ':' = c := (List.cons.inj hw).1
        exact absurd (h c (by simp)) (by rw [← hc]; decide)
  rw [read?_eq, hlocation, Option.bind_none]

theorem read?_lineBreak (hr : ∀ c ∈ rest.head?, c = '\n') : read? rest = none :=
  @read?_blank rest [] (List.forall_mem_nil _) hr

theorem scan_lineStart (hr : ∀ c ∈ rest.head?, c = '\n') (lineStart : Bool) :
    scan 0 lineStart rest = scan 0 true rest := by
  cases rest with
  | nil => rfl
  | cons c rest =>
    rw [scan, scan, read?_lineBreak hr, if_pos rfl, ite_self]

theorem scan_blank (h : ∀ c ∈ gap, CharClass.isSpace c) (hr : ∀ c ∈ rest.head?, c = '\n')
    (lineStart : Bool) : scan 0 lineStart (gap ++ rest) = scan 0 true rest := by
  induction gap generalizing lineStart with
  | nil => exact scan_lineStart hr lineStart
  | cons c gap ih =>
    have hread : read? (c :: (gap ++ rest)) = none := read?_blank h hr
    rw [List.cons_append, scan, hread, ite_self]
    exact ih (List.forall_mem_cons.1 h).2 _

theorem scan_skipped (hr : ∀ c ∈ rest.head?, c = '\n') (taken : List Char) (lineStart : Bool) :
    scan taken.length lineStart (taken ++ rest) = scan 0 true rest := by
  induction taken generalizing lineStart with
  | nil => exact scan_lineStart hr lineStart
  | cons c taken ih =>
    rw [List.cons_append, List.length_cons, scan]
    exact ih _

theorem scan_lineBreak (more : List Char) (lineStart : Bool) :
    scan 0 lineStart ('\n' :: more) = scan 0 true more := by
  have hline : ∀ c ∈ ('\n' :: more).head?, c = '\n' := fun c hc => (Option.some.inj hc).symm
  rw [scan, read?_lineBreak hline, ite_self]
  rfl

theorem scan_skipped_lineBreak (taken more : List Char) (lineStart : Bool) :
    scan taken.length lineStart (taken ++ '\n' :: more) = scan 0 true more := by
  have hline : ∀ c ∈ ('\n' :: more).head?, c = '\n' := fun c hc => (Option.some.inj hc).symm
  rw [scan_skipped hline, scan_lineBreak]

theorem scan_length (text : List Char) (lineStart : Bool) :
    scan text.length lineStart text = [] := by
  simpa [scan] using @scan_skipped [] (by simp) text lineStart

theorem scan_of_read? (h : read? text = some (diagnostic, [])) :
    scan 0 true text = diagnostic.toList := by
  cases text with
  | nil => cases h
  | cons c rest =>
    rw [scan, h, if_pos rfl]
    simp only [List.length_nil, Nat.sub_zero, scan_length, List.append_nil]

/-- Each end of a text at which a message is looked for: it begins a line that no message before it
has taken. -/
def attempts (skipped : Nat) (lineStart : Bool) : List Char → List (List Char)
  | [] => []
  | c :: rest =>
    let next := Text.isLineBreak c
    match skipped with
    | skipped + 1 => attempts skipped next rest
    | 0 =>
      if lineStart then
        (c :: rest) :: attempts ((read? (c :: rest)).elim 0 fun found =>
          rest.length - found.2.length) next rest
      else attempts 0 next rest

/-- The messages of a text are those read at the attempts. -/
theorem scan_eq_filterMap (skipped : Nat) (lineStart : Bool) (text : List Char) :
    scan skipped lineStart text =
      (attempts skipped lineStart text).filterMap fun line => (read? line).bind Prod.fst := by
  induction text generalizing skipped lineStart with
  | nil => rfl
  | cons c rest ih =>
    cases skipped with
    | succ skipped => exact ih ..
    | zero =>
      cases lineStart with
      | false => exact ih ..
      | true =>
        rw [scan, attempts, if_pos rfl, if_pos rfl, List.filterMap_cons]
        cases read? (c :: rest) with
        | none => exact ih ..
        | some found =>
          obtain ⟨diagnostic, after⟩ := found
          simp only [ih]
          cases diagnostic <;> rfl

/-- Whether the lines behind a text are read as if they stood alone. -/
def Joins (skipped : Nat) (lineStart : Bool) (text : List Char) : Prop :=
  ∀ more, scan skipped lineStart (text ++ '\n' :: more) =
    scan skipped lineStart text ++ scan 0 true more

theorem isSpace_append_lineBreak (h : ∀ c ∈ blank, CharClass.isSpace c) :
    ∀ c ∈ blank ++ ['\n'], CharClass.isSpace c := by
  have hbreak : CharClass.isSpace '\n' := rfl
  exact List.forall_mem_append.2 ⟨h, List.forall_mem_singleton.2 hbreak⟩

theorem body?_absorbs (h : ∀ c ∈ blank, CharClass.isSpace c) :
    body? (blank ++ '\n' :: "m.c:1:2: error: x".toList) =
      some ("m.c:1:2: error: x".toList, []) := by
  have hrun : Text.run? CharClass.isSpace (blank ++ '\n' :: "m.c:1:2: error: x".toList) =
      some (blank ++ ['\n'], "m.c:1:2: error: x".toList) := by
    have hword : CharClass.isSpace 'm' = false := rfl
    exact Text.run?_eq_some.2
      ⟨by simp, by simp, isSpace_append_lineBreak h, by rintro c ⟨⟩; exact hword⟩
  rw [body?, hrun]
  rfl

/-- An unfinished message goes on to a line that holds a message itself. -/
theorem read?_absorbs (h : IsUnfinished text) : ∃ second : String,
    parse second = [⟨1, "error: x"⟩] ∧ ∃ (line : List Char) (severity : String),
      read? (text ++ '\n' :: second.toList) =
        some ((Text.decimal? UInt64.size line).map
          (⟨·, severity ++ ": " ++ "m.c:1:2: error: x"⟩), []) := by
  cases h with
  | @ungraded line blank located spaces =>
    refine ⟨"error:\nm.c:1:2: error: x", by decide +kernel, line, "error", ?_⟩
    have hgrade : grade? (blank ++ '\n' :: "error:\nm.c:1:2: error: x".toList) =
        some ("error", [] ++ '\n' :: "m.c:1:2: error: x".toList) := by
      have hrun : IsRun CharClass.isSpace (blank ++ ['\n']) :=
        ⟨by simp, isSpace_append_lineBreak spaces⟩
      exact grade?_eq_some.2 ⟨_, hrun, by decide, by simp⟩
    rw [read?_eq, location?_append, location?_eq_some.2 located]
    simp only [Option.map_some, Option.bind_some, hgrade, @body?_absorbs [] (by simp)]
    rfl
  | @wordless line gap blank severity located run known spaces =>
    refine ⟨"m.c:1:2: error: x", by decide +kernel, line, severity, ?_⟩
    have hgrade : grade? (gap ++ (severity.toList ++ ':' :: blank)) = some (severity, blank) :=
      grade?_eq_some.2 ⟨gap, run, known, rfl⟩
    have hword : ∃ c ∈ gap ++ (severity.toList ++ ':' :: blank), CharClass.isSpace c = false :=
      ⟨':', by simp, by decide⟩
    rw [read?_eq, location?_append, location?_eq_some.2 located]
    simp only [Option.map_some, Option.bind_some, grade?_append hword, hgrade,
      body?_absorbs spaces]
    rfl

theorem not_joins_of_isUnfinished (h : IsUnfinished text) : ¬Joins 0 true text := by
  obtain ⟨second, hsecond, line, severity, hread⟩ := read?_absorbs h
  intro hj
  have he := hj second.toList
  rw [scan_of_read? hread] at he
  have hlast := congrArg List.getLast? (he.trans (congrArg (scan 0 true text ++ ·) hsecond))
  rw [List.getLast?_concat] at hlast
  cases hline : Text.decimal? UInt64.size line with
  | none =>
    rw [hline] at hlast
    exact Option.some_ne_none _ hlast.symm
  | some number =>
    rw [hline] at hlast
    have hmessage : severity ++ ": " ++ "m.c:1:2: error: x" = "error: x" :=
      congrArg Diagnostic.message (Option.some.inj hlast)
    have hlength := congrArg String.length hmessage
    simp only [String.length_append] at hlength
    have hshort : "error: x".length < "m.c:1:2: error: x".length := by decide
    omega

theorem joins_nil (lineStart : Bool) : Joins 0 lineStart [] :=
  fun more => scan_lineBreak more lineStart

/-- What a finished attempt takes of the lines behind the text is passed over there as well. -/
theorem joins_taken {c : Char} (hu : ¬IsUnfinished (c :: rest)) : Joins 0 true (c :: rest) ↔
    Joins ((read? (c :: rest)).elim 0 fun found => rest.length - found.2.length)
      (Text.isLineBreak c) rest := by
  refine forall_congr' fun more => ?_
  have hread := read?_append hu more
  rw [List.cons_append] at hread ⊢
  rw [scan, scan, if_pos rfl, if_pos rfl]
  generalize read? (c :: rest) = found, read? (c :: (rest ++ '\n' :: more)) = found' at hread
  cases hread with
  | none => rfl
  | @some found found' hsame =>
    obtain ⟨diagnostic, after⟩ := found
    obtain ⟨diagnostic', after'⟩ := found'
    obtain ⟨rfl, hafter⟩ : diagnostic = diagnostic' ∧ Continues more after after' := hsame
    simp only [List.append_assoc, List.append_cancel_left_eq, Option.elim_some]
    cases hafter with
    | kept => rw [List.length_append, List.length_append, Nat.add_sub_add_right]
    | @passed gap after' hsplit hgap hline =>
      have hlength : (rest ++ '\n' :: more).length - after'.length = (rest ++ gap).length := by
        rw [hsplit, ← List.append_assoc, List.length_append, Nat.add_sub_cancel]
      have hmore : scan 0 true after' = scan 0 true more := by
        rw [← scan_lineBreak more true, hsplit, scan_blank hgap hline]
      refine iff_of_true ?_ ?_
      · rw [hlength, hsplit, ← List.append_assoc, scan_skipped hline, hmore, List.length_nil,
          Nat.sub_zero, scan_length, List.nil_append]
      · rw [List.length_nil, Nat.sub_zero, scan_skipped_lineBreak, scan_length, List.nil_append]

/-- A text joins with the lines behind it just if it leaves no message unfinished. -/
theorem joins_iff {skipped : Nat} {lineStart : Bool} (hs : skipped ≤ text.length) :
    Joins skipped lineStart text ↔
      ∀ line ∈ attempts skipped lineStart text, ¬IsUnfinished line := by
  induction text generalizing skipped lineStart with
  | nil =>
    obtain rfl := Nat.le_zero.1 hs
    exact iff_of_true (joins_nil lineStart) (List.forall_mem_nil _)
  | cons c rest ih =>
    cases skipped with
    | succ skipped => exact ih (Nat.le_of_succ_le_succ hs)
    | zero =>
      cases lineStart with
      | false => exact ih (Nat.zero_le _)
      | true =>
        rw [attempts, if_pos rfl, List.forall_mem_cons]
        by_cases hu : IsUnfinished (c :: rest)
        · exact iff_of_false (not_joins_of_isUnfinished hu) fun h => h.1 hu
        · rw [joins_taken hu, ih, and_iff_right hu]
          cases read? (c :: rest) with
          | none => exact Nat.zero_le _
          | some found => exact Nat.sub_le _ _

/-- The lines of a text and of what stands behind it are read apart just if the text leaves no
message unfinished, be it on its last line or on several. -/
theorem parse_lines (first : String) :
    (∀ second, parse (first ++ "\n" ++ second) = parse first ++ parse second) ↔
      ∀ line ∈ attempts 0 true first.toList, ¬IsUnfinished line := by
  rw [← joins_iff (Nat.zero_le _)]
  have htext (second : String) :
      (first ++ "\n" ++ second).toList = first.toList ++ '\n' :: second.toList := by
    simp
  constructor
  · intro h more
    have hmore := h (String.ofList more)
    rwa [parse, htext, String.toList_ofList, parse, parse, String.toList_ofList] at hmore
  · intro h second
    rw [parse, htext]
    exact h second.toList

/-- A message with its words is finished. One that ends with its severity is not, unless it is the
words of the message before. -/
theorem parse_lines_warning :
    (∀ second, parse ("a.c:1:1: warning: w\na.c:1:1: note: n" ++ "\n" ++ second) =
      parse "a.c:1:1: warning: w\na.c:1:1: note: n" ++ parse second) ∧
    (¬∀ second, parse ("a.c:1:1: warning: w\nb.c:2:2: error:" ++ "\n" ++ second) =
      parse "a.c:1:1: warning: w\nb.c:2:2: error:" ++ parse second) ∧
    ∀ second, parse ("a.c:1:1: error:\nb.c:2:2: error:" ++ "\n" ++ second) =
      parse "a.c:1:1: error:\nb.c:2:2: error:" ++ parse second := by
  refine ⟨(parse_lines _).2 ?_, mt (parse_lines _).1 ?_, (parse_lines _).2 ?_⟩
  · decide +kernel
  · decide +kernel
  · decide +kernel

/-- The second message stands in the place of the words of the first. -/
theorem not_forall_parse_append :
    ¬∀ first second : String, parse (first ++ "\n" ++ second) = parse first ++ parse second := by
  intro h
  have hjoined : parse ("a.c:1:1: error:" ++ "\n" ++ "b.c:2:2: error: x") =
      [⟨1, "error: b.c:2:2: error: x"⟩] := by decide +kernel
  have halone : parse "a.c:1:1: error:" ++ parse "b.c:2:2: error: x" = [⟨2, "error: x"⟩] := by
    decide +kernel
  have hsame := h "a.c:1:1: error:" "b.c:2:2: error: x"
  rw [hjoined, halone] at hsame
  exact absurd hsame (by decide)

end CompilerMessage

end CodeOutline
