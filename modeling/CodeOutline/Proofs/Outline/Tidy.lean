import CodeOutline.Proofs.Outline.Nested
import CodeOutline.Proofs.Outline.Sequence
import CodeOutline.Proofs.Shape.Keyword

namespace CodeOutline

open Slice (IsPart IsTail)

namespace Slice

open Delimiter

variable {slice tail after next : Slice} {start left right : Nat} {pending : Bool}

def IsBraceless (slice : Slice) : Prop :=
  ∀ cell ∈ slice.cells, cell.byte ≠ 0x7B

instance (slice : Slice) : Decidable slice.IsBraceless :=
  inferInstanceAs (Decidable (∀ cell ∈ slice.cells, cell.byte ≠ 0x7B))

theorem IsBraceless.mono (h : (slice.toOffset right).IsBraceless) (ht : IsTail tail slice)
    (hle : left ≤ right) : (tail.toOffset left).IsBraceless := by
  intro cell hm
  apply h cell
  obtain ⟨before, hc, hs⟩ := ht
  rw [toOffset, take] at hm ⊢
  have hlt : 0 < left - tail.start := by
    rw [Nat.pos_iff_ne_zero]
    intro hz
    rw [hz] at hm
    cases hm
  have hcount : right - slice.start = before.length + (right - tail.start) := by omega
  rw [hc, hcount, List.take_length_add_append]
  exact List.mem_append_right _ (List.take_subset_take_left _ (by omega) hm)

/-- Whether no branch of a conditional begins at an offset. -/
def Unbranched (slice : Slice) (start : Nat) : Prop :=
  ∀ tail, IsTail tail slice → tail.start = start → tail.after? "else" = none

theorem Unbranched.of_isTail (h : Unbranched slice start) (ht : IsTail tail slice) :
    Unbranched tail start :=
  fun other ho => h other (ho.trans ht)

theorem Starts.next? (h : Starts pending slice start) (hn : slice.next? = some next) :
    Starts pending next start := by
  obtain ⟨rfl, _⟩ := next?_spec hn
  have happend : slice.cells =
      slice.cells.takeWhile Cell.isBlank ++ slice.skipBlank.cells :=
    takeWhile_append_drop_run ..
  rw [Starts, happend, startsDue_blanks fun cell hm => List.mem_takeWhile_imp hm] at h
  exact h

theorem IsPaired.starts_else (h : IsPaired slice)
    (he : slice.next?.bind (Slice.after? "else") = some after) (hu : Unbranched slice start)
    (hs : Starts true slice start) : Starts false after start := by
  obtain ⟨next, hn, ha⟩ := Option.bind_eq_some_iff.1 he
  have hne : start ≠ next.start := by
    rintro rfl
    have := hu next (next?_spec hn).2.1 rfl
    rw [this] at ha
    cases ha
  have hnext := (isSolid_next? hn).starts (hs.next? hn) hne false
  exact ((h.of_follows (continues_next? hn).follows).continues_after? ha).starts hnext

theorem IsPaired.starts_pastSemicolon? (h : IsPaired slice) (hp : slice.pastSemicolon? = some after)
    (hb : (slice.toOffset after.start).IsBraceless) (hs : Starts false slice start) :
    Starts true after start := by
  obtain ⟨stop, hf, rfl⟩ := Option.map_eq_some_iff.1 hp
  rw [Starts, startsDue_until (fun byte hm => by cases hm) h.nested hf] at hs
  · exact hs
  · intro cell hm
    refine hb cell (List.take_subset_take_left _ ?_ hm)
    simp only [fromOffset]
    omega

end Slice

namespace Outline

open Slice (IsPaired Follows Continues IsEnclosed Starts)

variable {levels levels' start : Nat} {text slice block body inner after last : Slice}

theorem starts_branch {other : Slice} (hp : IsPaired slice) (ht : Follows after slice)
    (he : after.next?.bind (Slice.after? "else") = some other) (hu : slice.Unbranched start)
    (hs : Starts true after start) : Starts false other start :=
  (hp.of_follows ht).starts_else he (hu.of_isTail ht.isTail) hs

theorem Passes.starts (h : Passes slice after) (hp : IsPaired slice)
    (hb : (slice.toOffset after.start).IsBraceless) (hu : slice.Unbranched start)
    (hs : Starts false slice start) : Starts true after start := by
  induction h with
  | block hbrace hblock =>
    obtain ⟨inner, rest, he, _, _, hstarts⟩ := hp.exists_braces hbrace
    cases he.symm.trans hblock
    exact hstarts start hs
  | unclosed hbrace hblock =>
    obtain ⟨inner, rest, he, _⟩ := hp.exists_braces hbrace
    cases he.symm.trans hblock
  | simple h => exact hp.starts_pastSemicolon? h hb hs
  | headed hh _ hn _ ih =>
    have hbody := continues_body hp hh hn
    exact ih (hp.of_follows hbody.follows) (hb.mono hbody.follows.isTail (Nat.le_refl _))
      (hu.of_isTail hbody.follows.isTail) (hbody.starts hs)
  | branched hh _ hn hfirst he ho hlast ih ih' =>
    have hbody := continues_body hp hh hn
    have hpbody := hp.of_follows hbody.follows
    have hmiddle := (hfirst.ends hpbody).follows.trans hbody.follows
    have hnext := Slice.continues_next? ho
    have hbranch := hnext.follows.trans ((hp.of_follows hmiddle).follows_else he)
    have hall := hbranch.trans hmiddle
    have hpother := hp.of_follows hall
    -- the first body ends before the branch, whose own end is that of the whole
    have hle := ((hlast.ends hpother).follows.trans hbranch).isTail.isPart.start_le
    have hstarts := ih hpbody (hb.mono hbody.follows.isTail hle)
      (hu.of_isTail hbody.follows.isTail) (hbody.starts hs)
    exact ih' hpother (hb.mono hall.isTail (Nat.le_refl _)) (hu.of_isTail hall.isTail)
      (hnext.starts (starts_branch hp hmiddle he hu hstarts))

/-- Whether a body that does not begin with a brace holds none. -/
def IsPlain (body inner : Slice) : Prop :=
  body.startsWith '{' ∨ inner.IsBraceless

instance (body inner : Slice) : Decidable (IsPlain body inner) :=
  inferInstanceAs (Decidable (_ ∨ _))

theorem starts_bodyRange? (hp : IsPaired slice)
    (h : bodyRange? levels slice = some (body, inner, after)) (hb : IsPlain body inner)
    (hu : slice.Unbranched start) (hs : Starts false slice start) : Starts true after start := by
  rw [bodyRange?, Option.bind_eq_some_iff] at h
  obtain ⟨body', hn, h⟩ := h
  obtain ⟨⟨inner', after'⟩, hr, he⟩ := Option.map_eq_some_iff.1 h
  cases he
  have hbody := Slice.continues_next? hn
  have hpaired := hp.of_follows hbody.follows
  have hstart := hbody.starts hs
  split at hr
  · next hbrace =>
    obtain ⟨inner', rest, hblock, _, _, hstarts⟩ := hpaired.exists_braces hbrace
    rw [hblock] at hr
    cases hr
    exact hstarts start hstart
  · next hbrace =>
    obtain ⟨rest, ha, he⟩ := Option.map_eq_some_iff.1 hr
    cases he
    exact (passes_of_afterStatement? ha).starts hpaired (hb.resolve_left hbrace)
      (hu.of_isTail hbody.follows.isTail) hstart

/-- Whether the bodies of a conditional or a loop and of the chain it begins are plain. -/
def PlainBelow (levels : Nat) (slice : Slice) : Prop :=
  ∀ next last body inner, Chained levels slice (next + 1) last → Opens next last body inner →
    IsPlain body inner

theorem starts_body {heading : Heading} (hp : IsPaired slice)
    (hh : slice.heading? = some heading)
    (h : bodyRange? levels heading.after = some (body, inner, after)) (hb : IsPlain body inner)
    (hu : slice.Unbranched start) (hs : Starts false slice start) : Starts true after start := by
  have hheading := hp.continues_heading? hh
  exact starts_bodyRange? (hp.of_follows hheading.follows) h hb
    (hu.of_isTail hheading.follows.isTail) (hheading.starts hs)

theorem Chained.starts (hp : IsPaired slice) (h : Chained levels slice levels' last)
    (hplain : PlainBelow levels slice) (hu : slice.Unbranched start)
    (hs : Starts false slice start) : Starts false last start := by
  induction h with
  | refl => exact hs
  | next hh hk hb he hn hc _ ih =>
    have hbody := starts_body hp hh hb
      (hplain _ _ _ _ (.refl _ _) (.body hh (by rw [hk]; decide) hb)) hu hs
    have hafter := (isEnclosed_body hp hh hb).2
    have hbranch := starts_branch hp hafter he hu hbody
    have hnext := Slice.continues_next? hn
    have htail := hnext.follows.trans (follows_branch hp hafter he)
    exact ih (hp.of_follows htail)
      (fun _ _ _ _ hchain => hplain _ _ _ _ (.next hh hk hb he hn hc hchain))
      (hu.of_isTail htail.isTail) (hnext.starts hbranch)

theorem Opens.stop_le (hp : IsPaired slice) (h : Opens levels slice body inner)
    (hplain : ∀ body inner, Opens levels slice body inner → IsPlain body inner)
    (hu : slice.Unbranched start) (hs : Starts false slice start) : inner.stop ≤ start := by
  cases h with
  | body hh hk hb =>
    have hbody := starts_body hp hh hb (hplain _ _ (.body hh hk hb)) hu hs
    exact Nat.le_trans (isPart_of_bodyRange? hb).2.2 hbody.bounds.1
  | alternative hh hk hb he hc ha =>
    have hbody := starts_body hp hh hb (hplain _ _ (.body hh (by rw [hk]; decide) hb)) hu hs
    have hafter := (isEnclosed_body hp hh hb).2
    have hother := follows_branch hp hafter he
    have hlast := starts_bodyRange? (hp.of_follows hother) ha
      (hplain _ _ (.alternative hh hk hb he hc ha)) (hu.of_isTail hother.isTail)
      (starts_branch hp hafter he hu hbody)
    exact Nat.le_trans (isPart_of_bodyRange? ha).2.2 hlast.bounds.1

/-- A statement whose bodies are plain ends before the next statement starts. -/
theorem clears_of_starts (hp : IsPaired slice) (hplain : PlainBelow levels slice)
    (hu : slice.Unbranched start) (hs : Starts false slice start) : Clears levels slice start := by
  intro levels' last hc
  have hlast := hc.follows hp
  have hplast := hp.of_follows hlast
  have hstart := hc.starts hp hplain hu hs
  refine ⟨fun heading hh => ((hplast.continues_heading? hh).starts hstart).bounds.1, ?_⟩
  rintro next body inner rfl ho
  exact ho.stop_le hplast (fun _ _ => hplain _ _ _ _ hc) (hu.of_isTail hlast.isTail) hstart

theorem after?_of_statement? {below : Option Level} (h : (statement? levels below slice).isSome) :
    slice.after? "else" = none := by
  rw [Option.eq_none_iff_forall_ne_some]
  intro rest ha
  obtain ⟨outline, h⟩ := Option.isSome_iff_exists.1 h
  obtain ⟨name, hw, hname⟩ := Slice.exists_word?_of_after? ha
  have hheading {heading : Heading} (hh : slice.heading? = some heading) :
      heading.name.text = "else" := by
    obtain ⟨after, hw', _⟩ := Slice.exists_word?_of_heading? hh
    cases hw.symm.trans hw'
    exact hname
  cases statement?_spec h with
  | declared hd _ =>
    obtain ⟨declarator, _, _, hd, _⟩ := Declaration.read?_declarator hd
    rw [Declarator.read?_of_keyword hw (by rw [hname]; decide)] at hd
    cases hd
  | returned _ hr =>
    obtain ⟨_, _, _, hreturn, _⟩ := return?_spec hr
    obtain ⟨name', hw', hname'⟩ := Slice.exists_word?_of_after? hreturn
    cases hw.symm.trans hw'
    exact absurd (hname.symm.trans hname') (by decide)
  | called hc =>
    rw [callStatement?, Option.bind_eq_some_iff] at hc
    obtain ⟨heading, hh, hc⟩ := hc
    rw [hheading hh, if_pos (by decide)] at hc
    cases hc
  | headed hh =>
    have hk := hh.keyword
    rw [hheading hh.read] at hk
    exact absurd hk (by decide)

/-- Whether the brackets of a text are paired and no body without braces holds a brace. -/
structure IsTidy (text : Slice) : Prop where
  nested : Delimiter.IsNested text.cells
  plain : ∀ levels block, Visits text levels block → ∀ head ∈ block.heads .topLevel,
    (statement? levels (below levels) head).isSome → PlainBelow levels head

theorem unbranched_of_heads {left right : Slice} (hl : left ∈ block.heads .topLevel)
    (hr : right ∈ block.heads .topLevel) (hs : (statement? levels (below levels) right).isSome) :
    left.Unbranched right.start := by
  intro tail ht he
  rw [(ht.trans (Slice.isTail_of_mem_heads hl)).eq (Slice.isTail_of_mem_heads hr) he]
  exact after?_of_statement? hs

/-- A tidy text is read in sequence, if each statement without a heading is read to where the next
statement may start. -/
theorem IsTidy.inSequence {stop : Slice → Nat} (hf : ∀ cell ∈ text.cells, cell.IsFaithful)
    (h : IsTidy text)
    (hitem : ∀ head ∈ text.heads .topLevel, (item? text head).isSome → stop head ≤ head.start + 1)
    (hstop : ∀ levels block, Visits text levels block → ∀ head ∈ block.heads .topLevel,
      (statement? levels (below levels) head).isSome → IsPaired head → ∀ start, head.start < start →
        Starts false head start → stop head ≤ start) : InSequence stop text := by
  have hp : IsPaired text := ⟨hf, h.nested⟩
  constructor
  · refine (Slice.pairwise_heads text .topLevel).imp_of_mem ?_
    intro left right hl hr hlt hil _
    have hleft := hp.of_follows (Slice.follows_of_mem_heads hp.nested hl).1
    refine ⟨Nat.le_trans (hitem left hl hil) hlt, fun function hfunction => ?_⟩
    exact (FunctionDefinition.read?_paired hleft hfunction).2 _
      (Slice.starts_of_heads hp.nested hl hr hlt)
  · intro levels block hv
    have hblock := hv.isPaired hp
    refine (Slice.pairwise_heads block .topLevel).imp_of_mem ?_
    intro left right hl hr hlt hsl hsr
    have hleft := hblock.of_follows (Slice.follows_of_mem_heads hblock.nested hl).1
    have hstart := Slice.starts_of_heads hblock.nested hl hr hlt
    exact ⟨hstop levels block hv left hl hsl hleft _ hlt hstart,
      clears_of_starts hleft (h.plain levels block hv left hl hsl)
        (unbranched_of_heads hl hr hsr) hstart⟩

theorem plainBelow_iff : (∀ entry ∈ bodies levels slice, IsPlain entry.2.1 entry.2.2) ↔
    PlainBelow levels slice := by
  constructor
  · intro h next last body inner hc ho
    exact h _ (mem_bodies.2 ⟨last, hc, ho⟩)
  · rintro h ⟨next, body, inner⟩ hm
    obtain ⟨last, hc, ho⟩ := mem_bodies.1 hm
    exact h next last body inner hc ho

instance (levels : Nat) (slice : Slice) : Decidable (PlainBelow levels slice) :=
  decidable_of_iff _ plainBelow_iff

theorem isTidy_iff : (Delimiter.IsNested text.cells ∧
    ∀ entry ∈ visited text, ∀ head ∈ entry.2.heads .topLevel,
      (statement? entry.1 (below entry.1) head).isSome → PlainBelow entry.1 head) ↔
        IsTidy text := by
  constructor
  · rintro ⟨hn, hplain⟩
    exact ⟨hn, fun levels block hv => hplain (levels, block) (mem_visited.2 hv)⟩
  · intro h
    refine ⟨h.nested, ?_⟩
    rintro ⟨levels, block⟩ hm
    exact h.plain levels block (mem_visited.1 hm)

instance (text : Slice) : Decidable (IsTidy text) :=
  decidable_of_iff _ isTidy_iff

example : IsTidy (Source.ofString branches).view := by
  decide +kernel

end Outline

end CodeOutline
