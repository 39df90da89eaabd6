import CodeOutline.Proofs.Source.Mask
import Mathlib.Data.List.Chain

namespace CodeOutline.Mask

instance (c : Char) : Decidable (IsQuote c) :=
  inferInstanceAs (Decidable (_ ∨ _ ∨ _))

/-- What a literal has between its quotes. -/
inductive LiteralPart where
  | plain (c : Char)
  /-- A character behind a backslash. -/
  | escaped (c : Char)

def LiteralPart.chars : LiteralPart → List Char
  | plain c => [c]
  | escaped c => ['\\', c]

/-- A plain character neither ends the literal nor begins an escape. -/
def LiteralPart.Fits (quote : Char) : LiteralPart → Prop
  | plain c => c ≠ quote ∧ c ≠ '\\' ∧ (c = '\n' → quote = '\x60')
  | escaped _ => True

instance (quote : Char) : (part : LiteralPart) → Decidable (part.Fits quote)
  | .plain _ => inferInstanceAs (Decidable (_ ∧ _ ∧ _))
  | .escaped _ => inferInstanceAs (Decidable True)

/-- A stretch of a text, with what stands between its first and its last characters. -/
inductive Segment where
  | code (chars : List Char)
  | lineComment (inside : List Char)
  | blockComment (inside : List Char)
  | literal (quote : Char) (parts : List LiteralPart)
  | directive (inside : List Char)

/-- A character, and whether it belongs to program text. -/
structure Mark where
  char : Char
  isCode : Bool

namespace Segment

def chars : Segment → List Char
  | code chars => chars
  | lineComment inside => '/' :: '/' :: (inside ++ ['\n'])
  | blockComment inside => '/' :: '*' :: (inside ++ ['*', '/'])
  | literal quote parts => quote :: (parts.flatMap LiteralPart.chars ++ [quote])
  | directive inside => '#' :: (inside ++ ['\n'])

/-- What is left of a segment: program text as it is, a literal's quotes, and blanks. -/
def image : Segment → List Char
  | code chars => chars
  | literal quote parts => quote :: ((parts.flatMap LiteralPart.chars).flatMap blank ++ [quote])
  | lineComment inside => (lineComment inside).chars.flatMap blank
  | blockComment inside => (blockComment inside).chars.flatMap blank
  | directive inside => (directive inside).chars.flatMap blank

def isCode : Segment → Bool
  | code _ => true
  | _ => false

def marks (segment : Segment) : List Mark :=
  segment.chars.map (⟨·, segment.isCode⟩)

end Segment

/-- Whether the last line holds nothing but white space of program text. -/
def beginsLine (marks : List Mark) : Bool :=
  (marks.reverse.takeWhile fun mark => mark.char ≠ '\n').all fun mark =>
    mark.isCode && CharClass.isSpace mark.char

/-- A segment is what it looks like, between the characters before it and the one behind it. -/
def Segment.Stands (before : List Mark) (next : Option Char) : Segment → Prop
  | code chars => (∀ c ∈ chars, ¬ IsQuote c ∧ c ≠ '#') ∧
    (chars ++ next.toList).IsChain fun c d => c = '/' → d ≠ '/' ∧ d ≠ '*'
  | lineComment inside => '\n' ∉ inside
  | blockComment inside => inside.IsChain fun c d => c = '*' → d ≠ '/'
  | literal quote parts => IsQuote quote ∧ ∀ part ∈ parts, part.Fits quote
  | directive inside => beginsLine before ∧
    (('#' :: inside).IsChain fun c d => d = '\n' → c = '\\') ∧ inside.getLast? ≠ some '\\'

instance (before : List Mark) (next : Option Char) :
    (segment : Segment) → Decidable (segment.Stands before next)
  | .code chars =>
    have := List.decidableBAll (fun c => ¬ IsQuote c ∧ c ≠ '#') chars
    inferInstanceAs (Decidable (_ ∧ _))
  | .lineComment _ => inferInstanceAs (Decidable (_ ∉ _))
  | .blockComment _ => inferInstanceAs (Decidable (List.IsChain _ _))
  | .literal _ _ => inferInstanceAs (Decidable (_ ∧ _))
  | .directive _ => inferInstanceAs (Decidable (_ ∧ _ ∧ _))

def textOf (segments : List Segment) : List Char :=
  segments.flatMap Segment.chars

/-- The text behind the given characters is put together from the segments. -/
def Lexes (before : List Mark) : List Segment → Prop
  | [] => True
  | segment :: after => segment.Stands before (textOf after).head? ∧
    Lexes (before ++ segment.marks) after

instance : (before : List Mark) → (segments : List Segment) → Decidable (Lexes before segments)
  | _, [] => inferInstanceAs (Decidable True)
  | before, segment :: after =>
    have := instDecidableLexes (before ++ segment.marks) after
    inferInstanceAs (Decidable (_ ∧ _))

section

variable {c : Char} {lineStart isCode : Bool} {chars inside rest : List Char} {before : List Mark}

theorem IsQuote.ne {quote : Char} (h : IsQuote quote) (hc : ¬ IsQuote c) : quote ≠ c :=
  fun he => hc (he ▸ h)

theorem beginsLine_concat (before : List Mark) (c : Char) (isCode : Bool) :
    beginsLine (before ++ [⟨c, isCode⟩]) =
      (c = '\n' || (isCode && CharClass.isSpace c && beginsLine before)) := by
  rw [beginsLine, List.reverse_concat, List.takeWhile_cons]
  by_cases hc : c = '\n'
  · simp [hc]
  · simp [hc, beginsLine]

theorem step_code (lineStart : Bool) {next : Option Char}
    (hs : c = '/' → next ≠ some '/' ∧ next ≠ some '*')
    (hq : ¬ IsQuote c) (hd : ¬ (c = '#' ∧ lineStart)) : (Mode.code lineStart).step c next =
      (.code (c = '\n' || (CharClass.isSpace c && lineStart)), true) := by
  rw [Mode.step, if_neg fun h => (hs h.1).1 h.2, if_neg fun h => (hs h.1).2 h.2]
  exact (if_neg hq).trans (if_neg hd)

theorem runFrom_code (before : List Mark) (h : ∀ c ∈ chars, ¬ IsQuote c ∧ c ≠ '#')
    (hs : (chars ++ rest.head?.toList).IsChain fun c d => c = '/' → d ≠ '/' ∧ d ≠ '*') :
    runFrom (.code (beginsLine before)) (chars ++ rest) =
      chars ++ runFrom (.code (beginsLine (before ++ chars.map (⟨·, true⟩)))) rest := by
  induction chars generalizing before with
  | nil => rw [List.map_nil, List.append_nil, List.nil_append, List.nil_append]
  | cons c chars ih =>
    obtain ⟨hnext, hs⟩ := List.isChain_cons.1 hs
    obtain ⟨hq, hd⟩ := h c List.mem_cons_self
    have hhead : (chars ++ rest.head?.toList).head? = (chars ++ rest).head? := by
      cases chars with
      | nil => cases rest <;> rfl
      | cons d chars => rfl
    have hslash : c = '/' → (chars ++ rest).head? ≠ some '/' ∧ (chars ++ rest).head? ≠ some '*' :=
      fun hc => ⟨fun hn => (hnext _ (hhead.trans hn) hc).1 rfl,
        fun hn => (hnext _ (hhead.trans hn) hc).2 rfl⟩
    have hstep := step_code (beginsLine before) hslash hq fun h => hd h.1
    have hmark := beginsLine_concat before c true
    rw [Bool.true_and] at hmark
    rw [← hmark] at hstep
    rw [List.cons_append, runFrom_cons, hstep, if_pos rfl,
      ih _ (fun d hm => h d (List.mem_cons_of_mem _ hm)) hs, List.append_assoc before]
    rfl

theorem runFrom_lineComment (h : '\n' ∉ inside) (rest : List Char) :
    runFrom .lineComment (inside ++ '\n' :: rest) =
      (inside ++ ['\n']).flatMap blank ++ runFrom (.code true) rest := by
  induction inside with
  | nil => rfl
  | cons c inside ih =>
    obtain ⟨hc, h⟩ := not_or.1 (List.mem_cons.not.1 h)
    have hstep (next : Option Char) : Mode.lineComment.step c next = (.lineComment, false) :=
      if_neg (Ne.symm hc)
    rw [List.cons_append, runFrom_cons, hstep, ih h, List.cons_append, List.flatMap_cons,
      List.append_assoc]
    rfl

theorem runFrom_blockComment (h : inside.IsChain fun c d => c = '*' → d ≠ '/')
    (rest : List Char) : runFrom .blockComment (inside ++ '*' :: '/' :: rest) =
      (inside ++ ['*', '/']).flatMap blank ++ runFrom (.code false) rest := by
  induction inside with
  | nil => rfl
  | cons c inside ih =>
    obtain ⟨hnext, h⟩ := List.isChain_cons.1 h
    have hopen : ¬ (c = '*' ∧ (inside ++ '*' :: '/' :: rest).head? = some '/') := by
      rintro ⟨hc, hn⟩
      cases inside with
      | nil => exact absurd (Option.some.inj hn) (by decide)
      | cons d inside => exact hnext d rfl hc (Option.some.inj hn)
    rw [List.cons_append, runFrom_cons, Mode.step, if_neg hopen, ih h, List.cons_append,
      List.flatMap_cons, List.append_assoc]
    rfl

theorem runFrom_code_blockComment (h : inside.IsChain fun c d => c = '*' → d ≠ '/')
    (rest : List Char) : runFrom (.code lineStart) ((Segment.blockComment inside).chars ++ rest) =
      (Segment.blockComment inside).image ++ runFrom (.code false) rest := by
  have hrest := runFrom_blockComment h rest
  rw [Segment.chars, List.cons_append, List.cons_append, List.append_assoc, runFrom_cons,
    runFrom_cons]
  exact congrArg (blank '/' ++ blank '*' ++ ·) hrest

theorem runFrom_literal {quote : Char} (hq : IsQuote quote) {parts : List LiteralPart}
    (h : ∀ part ∈ parts, part.Fits quote) (rest : List Char) :
    runFrom (.literal quote) (parts.flatMap LiteralPart.chars ++ quote :: rest) =
      (parts.flatMap LiteralPart.chars).flatMap blank ++ quote :: runFrom (.code false) rest := by
  induction parts with
  | nil =>
    have hstep (next : Option Char) : (Mode.literal quote).step quote next = (.code false, true) :=
      if_pos rfl
    rw [List.flatMap_nil, List.nil_append, runFrom_cons, hstep]
    rfl
  | cons part parts ih =>
    have hpart := h part List.mem_cons_self
    have hrest := ih fun other hm => h other (List.mem_cons_of_mem _ hm)
    rw [List.flatMap_cons, List.append_assoc, List.flatMap_append, List.append_assoc]
    cases part with
    | plain c =>
      obtain ⟨hc, hs, hb⟩ := hpart
      have hstep (next : Option Char) : (Mode.literal quote).step c next =
          (.literal quote, false) := by
        rw [Mode.step, if_neg hc, if_neg hs, if_neg fun h => h.2 (hb h.1)]
      rw [LiteralPart.chars, List.cons_append, runFrom_cons, hstep, List.nil_append, hrest,
        List.flatMap_singleton]
      rfl
    | escaped c =>
      have hslash : '\\' ≠ quote := (hq.ne (by decide)).symm
      have hstep (next : Option Char) : (Mode.literal quote).step '\\' next =
          (.escape quote, false) := by
        rw [Mode.step, if_neg hslash, if_pos rfl]
      rw [LiteralPart.chars, List.cons_append, List.cons_append, runFrom_cons, hstep, runFrom_cons,
        Mode.step, List.nil_append, hrest, List.flatMap_cons, List.flatMap_singleton,
        List.append_assoc]
      rfl

theorem step_directive {next : Option Char} (h : next = some '\n' → c = '\\') (hc : c ≠ '\n') :
    Mode.directive.step c next =
      (if next = some '\n' then .continuation else .directive, false) := by
  rw [Mode.step]
  by_cases hn : next = some '\n'
  · rw [if_pos ⟨h hn, hn⟩, if_pos hn]
  · rw [if_neg fun h => hn h.2, if_neg hc, if_neg hn]

/-- A directive ends at its first line break that is not behind a backslash; `continued` says that
one behind a backslash comes next. -/
theorem runFrom_directive (h : inside.IsChain fun c d => d = '\n' → c = '\\')
    (hl : inside.getLast? ≠ some '\\') {continued : Bool}
    (hn : continued ↔ inside.head? = some '\n') (rest : List Char) :
    runFrom (if continued then .continuation else .directive) (inside ++ '\n' :: rest) =
      (inside ++ ['\n']).flatMap blank ++ runFrom (.code true) rest := by
  induction inside generalizing continued with
  | nil =>
    obtain rfl : continued = false := Bool.eq_false_iff.2 fun hc => by cases hn.1 hc
    rfl
  | cons c inside ih =>
    obtain ⟨hnext, h⟩ := List.isChain_cons.1 h
    have hlast : inside.getLast? ≠ some '\\' := by
      intro he
      cases inside with
      | nil => cases he
      | cons d inside => exact hl (List.getLast?_cons_cons.trans he)
    have hstep : (if continued then Mode.continuation else .directive).step c
        (inside ++ '\n' :: rest).head? =
        (if inside.head? = some '\n' then .continuation else .directive, false) := by
      cases continued with
      | true =>
        obtain rfl : c = '\n' := Option.some.inj (hn.1 rfl)
        have hb : inside.head? ≠ some '\n' := fun hb => absurd (hnext _ hb rfl) (by decide)
        rw [if_neg hb]
        rfl
      | false =>
        have hc : c ≠ '\n' := fun hc => Bool.false_ne_true (hn.2 (congrArg some hc))
        cases inside with
        | nil =>
          have hb : c ≠ '\\' := fun hb => hl (congrArg some hb)
          exact (if_neg fun h => hb h.1).trans (if_neg hc)
        | cons d inside => exact step_directive (fun hd => hnext d rfl (Option.some.inj hd)) hc
    have hrest := ih h hlast (decide_eq_true_iff (p := inside.head? = some '\n'))
    simp only [decide_eq_true_eq] at hrest
    rw [List.cons_append, runFrom_cons, hstep, hrest, List.cons_append, List.flatMap_cons,
      List.append_assoc]
    rfl

end

theorem beginsLine_marks (segment : Segment) (front : List Char) (last : Char)
    (h : segment.isCode = false) (hc : segment.chars = front ++ [last]) (before : List Mark) :
    beginsLine (before ++ segment.marks) = (last = '\n' : Bool) := by
  rw [Segment.marks, h, hc, List.map_append, List.map_singleton, ← List.append_assoc,
    beginsLine_concat, Bool.false_and, Bool.false_and, Bool.or_false]

/-- Each segment is masked as if it stood alone, and leaves the mode that what it ends with asks
for. -/
theorem Segment.Stands.runFrom {segment : Segment} {before : List Mark} {rest : List Char}
    (h : segment.Stands before rest.head?) :
    runFrom (.code (beginsLine before)) (segment.chars ++ rest) =
      segment.image ++ runFrom (.code (beginsLine (before ++ segment.marks))) rest := by
  cases segment with
  | code chars => exact runFrom_code before h.1 h.2
  | lineComment inside =>
    have hlast := beginsLine_marks (.lineComment inside) ('/' :: '/' :: inside) '\n' rfl rfl before
    have hrest := runFrom_lineComment h rest
    rw [hlast, Segment.chars, List.cons_append, List.cons_append, List.append_assoc,
      runFrom_cons, runFrom_cons]
    exact congrArg (blank '/' ++ blank '/' ++ ·) hrest
  | blockComment inside =>
    have hlast := beginsLine_marks (.blockComment inside) ('/' :: '*' :: (inside ++ ['*'])) '/'
      rfl (by simp [Segment.chars]) before
    rw [hlast]
    exact runFrom_code_blockComment h rest
  | literal quote parts =>
    obtain ⟨hq, hparts⟩ := h
    have hlast := beginsLine_marks (.literal quote parts) (quote :: parts.flatMap LiteralPart.chars)
      quote rfl rfl before
    have hbreak : (quote = '\n' : Bool) = false := decide_eq_false (hq.ne (by decide))
    have hslash : quote ≠ '/' := hq.ne (by decide)
    have hrest := runFrom_literal hq hparts rest
    have hstep (next : Option Char) : (Mode.code (beginsLine before)).step quote next =
        (.literal quote, true) := by
      rw [Mode.step, if_neg fun h => hslash h.1, if_neg fun h => hslash h.1]
      exact if_pos hq
    rw [hlast, hbreak, Segment.chars, List.cons_append, List.append_assoc, runFrom_cons, hstep,
      List.singleton_append, hrest, Segment.image, List.cons_append, List.append_assoc]
    rfl
  | directive inside =>
    obtain ⟨hstart, hinside, hend⟩ := h
    have hlast := beginsLine_marks (.directive inside) ('#' :: inside) '\n' rfl rfl before
    obtain ⟨hnext, hinside⟩ := List.isChain_cons.1 hinside
    have hfirst : inside.head? ≠ some '\n' := fun hh => absurd (hnext _ hh rfl) (by decide)
    have hcontinued : (false = true) ↔ inside.head? = some '\n' :=
      ⟨fun h => absurd h Bool.false_ne_true, fun h => absurd h hfirst⟩
    have hrest := runFrom_directive hinside hend hcontinued rest
    rw [hlast, hstart, Segment.chars, List.cons_append, List.append_assoc, runFrom_cons]
    exact congrArg (blank '#' ++ ·) hrest

theorem runFrom_textOf {segments : List Segment} {before : List Mark} (h : Lexes before segments) :
    runFrom (.code (beginsLine before)) (textOf segments) = segments.flatMap Segment.image := by
  induction segments generalizing before with
  | nil => rfl
  | cons segment after ih =>
    have hrest := ih h.2
    rw [textOf, List.flatMap_cons, ← textOf, h.1.runFrom, hrest, List.flatMap_cons]

/-- Masking is lexing by segments. -/
theorem maskText_textOf {segments : List Segment} (h : Lexes [] segments) :
    maskText (String.ofList (textOf segments)) =
      String.ofList (segments.flatMap Segment.image) := by
  rw [maskText, String.toList_ofList, chars]
  exact congrArg String.ofList (runFrom_textOf h)

/-- A comment that begins with a slash and one that ends with two stars, a directive behind a
comment with a line that goes on behind two backslashes, and an escaped quote. -/
def seams : List Segment := [
  .code ['a', ' ', '/', ' ', 'b', ' '],
  .blockComment ['/', ' ', '*'],
  .code [' ', 'c', ' '],
  .lineComment [' ', '\''],
  .directive ['d', ' ', '\\', '\\', '\n'],
  .code [' ', 'x', ' ', '=', ' '],
  .literal '"' [.escaped '"', .plain 'é', .escaped '\n'],
  .code [';'],
  .literal '\x60' [.plain '\n'],
  .code ['\t', '\n', '\t'],
  .directive ['e']]

theorem maskText_textOf_seams :
    maskText "a / b /*/ **/ c // '\n#d \\\\\n\n x = \"\\\"é\\\n\";`\n`\t\n\t#e\n" =
      "a / b         c     \n     \n\n x = \"     \n\";`\n`\t\n\t  \n" := by
  calc
    _ = maskText (String.ofList (textOf seams)) := congrArg maskText (by decide +kernel)
    _ = String.ofList (seams.flatMap Segment.image) := maskText_textOf (by decide +kernel)
    _ = _ := by decide +kernel

section

variable {before inside after rest spaces : List Char} {mode : Mode} {c : Char}
  {next : Option Char} {lineStart : Bool}

/-- The mode that a text leaves when the given character follows it. -/
def modeBefore (next : Option Char) (mode : Mode) : List Char → Mode
  | [] => mode
  | c :: rest => modeBefore next (mode.step c (rest.head?.or next)).1 rest

/-- What masking makes of a text when the given character follows it. -/
def runBefore (next : Option Char) (mode : Mode) : List Char → List Char
  | [] => []
  | c :: rest =>
    (if (mode.step c (rest.head?.or next)).2 then [c] else blank c) ++
      runBefore next (mode.step c (rest.head?.or next)).1 rest

/-- A text is masked part by part if each part knows what the next one begins with. -/
theorem runFrom_append_head (mode : Mode) (before after : List Char) :
    runFrom mode (before ++ after) = runBefore after.head? mode before ++
      runFrom (modeBefore after.head? mode before) after := by
  induction before generalizing mode with
  | nil => rfl
  | cons c before ih =>
    rw [List.cons_append, runFrom_cons, List.head?_append, ih, ← List.append_assoc]
    rfl

theorem step_space (h : (mode.step c (some '/')).1 = .code lineStart) :
    mode.step c (some ' ') = mode.step c (some '/') := by
  cases mode with
  | code start =>
    have hc : c ≠ '/' := by
      rintro rfl
      cases h
    simp only [Mode.step, hc, false_and, if_false]
  | blockComment =>
    have hc : c ≠ '*' := by
      rintro rfl
      cases h
    simp only [Mode.step, hc, false_and, if_false]
  | lineComment | commentOpening | commentClosing | literal | escape | continuation => rfl
  | directive => simp [Mode.step]

theorem runBefore_space (h : modeBefore (some '/') mode before = .code lineStart) :
    runBefore (some ' ') mode before = runBefore (some '/') mode before ∧
      modeBefore (some ' ') mode before = .code lineStart := by
  induction before generalizing mode with
  | nil => exact ⟨rfl, h⟩
  | cons c before ih =>
    rw [modeBefore] at h
    have hstep : mode.step c (before.head?.or (some ' ')) =
        mode.step c (before.head?.or (some '/')) := by
      cases before with
      | nil => exact step_space h
      | cons d before => rfl
    obtain ⟨hrun, hmode⟩ := ih h
    rw [runBefore, runBefore, modeBefore, hstep, hrun]
    exact ⟨rfl, hmode⟩

theorem isQuote_of_isSpace (h : CharClass.isSpace c) : c ≠ '/' ∧ ¬ IsQuote c ∧ c ≠ '#' := by
  refine ⟨?_, ?_, ?_⟩
  · rintro rfl
    cases h
  · rintro (rfl | rfl | rfl) <;> cases h
  · rintro rfl
    cases h

theorem step_isSpace (h : CharClass.isSpace c) : (Mode.code lineStart).step c next =
    (.code (c = '\n' || lineStart), true) := by
  obtain ⟨hs, hq, hd⟩ := isQuote_of_isSpace h
  rw [step_code _ (fun hc => absurd hc hs) hq fun hh => hd hh.1, h, Bool.true_and]

theorem runFrom_isSpace (h : ∀ c ∈ spaces, CharClass.isSpace c) (rest : List Char) :
    runFrom (.code lineStart) (spaces ++ rest) =
      spaces ++ runFrom (.code (('\n' ∈ spaces : Bool) || lineStart)) rest := by
  induction spaces generalizing lineStart with
  | nil => rfl
  | cons c spaces ih =>
    rw [List.cons_append, runFrom_cons, step_isSpace (h c List.mem_cons_self), if_pos rfl,
      ih fun d hm => h d (List.mem_cons_of_mem _ hm), ← Bool.or_assoc,
      Bool.or_comm ('\n' ∈ spaces : Bool)]
    simp [eq_comm]

theorem isSpace_of_mem_blank {d : Char} (h : d ∈ blank c) : CharClass.isSpace d := by
  rw [blank] at h
  split at h
  · rw [List.mem_singleton.1 h]
    rfl
  · rw [List.eq_of_mem_replicate h]
    rfl

theorem lineBreak_mem_blank : '\n' ∈ blank c ↔ c = '\n' := by
  rw [blank]
  split
  · next hc => exact iff_of_true List.mem_cons_self hc
  · next hc => exact iff_of_false (fun h => absurd (List.eq_of_mem_replicate h) (by decide)) hc

/-- Whether the first character on the line that is not white space begins a directive. -/
def BeginsDirective (after : List Char) : Prop :=
  (after.dropWhile fun c => CharClass.isSpace c && c ≠ '\n').head? = some '#'

instance (after : List Char) : Decidable (BeginsDirective after) :=
  inferInstanceAs (Decidable (_ = _))

theorem beginsDirective_cons (c : Char) (rest : List Char) : BeginsDirective (c :: rest) ↔
    c = '#' ∨ (CharClass.isSpace c ∧ c ≠ '\n' ∧ BeginsDirective rest) := by
  rw [BeginsDirective, List.dropWhile_cons]
  by_cases hs : CharClass.isSpace c ∧ c ≠ '\n'
  · have hd : c ≠ '#' := (isQuote_of_isSpace hs.1).2.2
    rw [if_pos (by simp [hs])]
    simp only [hd, hs.1, hs.2, ne_eq, not_false_eq_true, true_and, false_or]
    rfl
  · rw [if_neg (by simpa using hs), List.head?_cons, Option.some_inj, ← and_assoc]
    simp only [hs, false_and, or_false]

/-- That a line has just begun matters to a directive only. -/
theorem runFrom_code_true_iff (after : List Char) :
    runFrom (.code true) after = runFrom (.code false) after ↔ ¬ BeginsDirective after := by
  induction after with
  | nil => exact iff_of_true rfl nofun
  | cons c rest ih =>
    rw [beginsDirective_cons, runFrom_cons, runFrom_cons]
    by_cases hd : c = '#'
    · subst hd
      exact iff_of_false (fun h => absurd (List.cons.inj h).1 (by decide)) fun h => h (.inl rfl)
    by_cases hs : CharClass.isSpace c
    · rw [step_isSpace hs, step_isSpace hs, List.append_cancel_left_eq]
      by_cases hb : c = '\n'
      · simp [hb]
      · simp [hb, hs, hd, ih]
    · have hstep : (Mode.code true).step c rest.head? = (Mode.code false).step c rest.head? := by
        simp [Mode.step, hd, hs]
      rw [hstep]
      exact iff_of_true rfl fun h => h.elim hd fun h => hs h.1

/-- A comment can be replaced by white space exactly if no directive follows it where a line has
begun before it or in it. -/
theorem maskText_blockComment_iff (before inside after : List Char)
    (hb : modeBefore (some '/') (.code true) before = .code lineStart)
    (hi : inside.IsChain fun c d => c = '*' → d ≠ '/') :
    maskText (String.ofList (before ++ ((Segment.blockComment inside).image ++ after))) =
        maskText (String.ofList (before ++ ((Segment.blockComment inside).chars ++ after))) ↔
      ¬ ((lineStart ∨ '\n' ∈ inside) ∧ BeginsDirective after) := by
  obtain ⟨hrun, hmode⟩ := runBefore_space hb
  have hspaces : ∀ c ∈ (Segment.blockComment inside).image, CharClass.isSpace c := fun c hm => by
    obtain ⟨_, _, hblank⟩ := List.mem_flatMap.1 hm
    exact isSpace_of_mem_blank hblank
  have hbreak : '\n' ∈ (Segment.blockComment inside).image ↔ '\n' ∈ inside := by
    simp [Segment.image, Segment.chars, lineBreak_mem_blank]
  have hcomment : Mask.chars (before ++ ((Segment.blockComment inside).chars ++ after)) =
      runBefore (some '/') (.code true) before ++
        ((Segment.blockComment inside).image ++ runFrom (.code false) after) := by
    rw [Mask.chars, runFrom_append_head, ← runFrom_code_blockComment hi, ← hb]
    rfl
  have hblank : Mask.chars (before ++ ((Segment.blockComment inside).image ++ after)) =
      runBefore (some '/') (.code true) before ++ ((Segment.blockComment inside).image ++
        runFrom (.code (('\n' ∈ inside : Bool) || lineStart)) after) := by
    rw [Mask.chars, runFrom_append_head, ← hrun, ← decide_eq_decide.2 hbreak,
      ← runFrom_isSpace hspaces, ← hmode]
    rfl
  rw [maskText, maskText, String.toList_ofList, String.toList_ofList, hcomment, hblank,
    String.ofList_inj, List.append_cancel_left_eq, List.append_cancel_left_eq]
  by_cases hl : lineStart ∨ '\n' ∈ inside
  · have hstart : (('\n' ∈ inside : Bool) || lineStart) = true := by
      rcases hl with rfl | hl
      · exact Bool.or_true _
      · rw [decide_eq_true hl, Bool.true_or]
    rw [hstart, runFrom_code_true_iff]
    simp only [hl, true_and]
  · have hstart : (('\n' ∈ inside : Bool) || lineStart) = false := by
      rw [not_or, Bool.not_eq_true] at hl
      rw [decide_eq_false hl.2, hl.1, Bool.or_false]
    rw [hstart]
    simp only [hl, false_and, not_false_eq_true]

end

theorem maskText_blockComment_break :
    maskText "a /       \n  / '\"'" = maskText "a / /* é*\n*// '\"'" := by
  have hb : modeBefore (some '/') (.code true) ['a', ' ', '/', ' '] = .code false := rfl
  exact (maskText_blockComment_iff ['a', ' ', '/', ' '] [' ', 'é', '*', '\n']
    ['/', ' ', '\'', '"', '\''] hb (by decide)).2 fun h => absurd h.2 (by decide)

/-- A directive behind a comment is not taken for one, though it is behind white space. -/
theorem maskText_blockComment_directive :
    maskText "        #define N 1" ≠ maskText "/* x */ #define N 1" := by
  decide +kernel

end CodeOutline.Mask
