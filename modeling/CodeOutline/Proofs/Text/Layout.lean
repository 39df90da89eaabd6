import CodeOutline.Text.Slice

namespace CodeOutline.Cell

@[simp] theorem layout_nil : layout [] = [] := rfl

theorem layout_cons (c : Char) (rest : List Char) :
    layout (c :: rest) = ofChar c ++ layout rest :=
  rfl

@[simp] theorem layout_append (left right : List Char) :
    layout (left ++ right) = layout left ++ layout right :=
  List.flatMap_append

theorem ofChar_ascii {c : Char} (h : c.toNat < 128) : ofChar c = [⟨c.val.toUInt8, some c⟩] := by
  have hv : c.val.toNat ≤ 127 := Nat.le_of_lt_succ h
  rw [ofChar, String.utf8EncodeChar, if_pos hv]
  rfl

/-- The bytes of a character outside ASCII are all above those of ASCII. -/
theorem le_of_mem_utf8EncodeChar {c : Char} {byte : UInt8} (h : 128 ≤ c.toNat)
    (hb : byte ∈ String.utf8EncodeChar c) : 128 ≤ byte.toNat := by
  have hv : ¬ c.val.toNat ≤ 127 := Nat.not_le.2 h
  simp only [String.utf8EncodeChar, if_neg hv] at hb
  split at hb
  · simp at hb
    rcases hb with rfl | rfl <;> simp <;> omega
  · split at hb
    · simp at hb
      rcases hb with rfl | rfl | rfl <;> simp <;> omega
    · simp at hb
      rcases hb with rfl | rfl | rfl | rfl <;> simp <;> omega

theorem ofChar_eq_cons (c : Char) : ∃ byte others,
    ofChar c = ⟨byte, some c⟩ :: others.map (⟨·, none⟩) ∧
      String.utf8EncodeChar c = byte :: others := by
  cases h : String.utf8EncodeChar c with
  | nil => exact absurd h String.utf8EncodeChar_ne_nil
  | cons byte others => exact ⟨byte, others, by rw [ofChar, h], rfl⟩

theorem ofChar_length (c : Char) : (ofChar c).length = c.utf8Size := by
  obtain ⟨byte, others, ho, he⟩ := ofChar_eq_cons c
  have hl := String.length_utf8EncodeChar c
  rw [he] at hl
  rw [ho, ← hl, List.length_cons, List.length_map, List.length_cons]

theorem byte_mem_of_mem_ofChar {c : Char} {cell : Cell} (h : cell ∈ ofChar c) :
    cell.byte ∈ String.utf8EncodeChar c := by
  obtain ⟨byte, others, ho, he⟩ := ofChar_eq_cons c
  rw [ho, List.mem_cons, List.mem_map] at h
  rw [he]
  rcases h with rfl | ⟨other, hm, rfl⟩
  · exact List.mem_cons_self
  · exact List.mem_cons_of_mem _ hm

theorem eq_of_mem_ofChar {c : Char} {cell : Cell} (h : cell ∈ ofChar c)
    (hb : cell.byte.toNat < 128) : cell = ⟨c.val.toUInt8, some c⟩ ∧ c.toNat < 128 := by
  by_cases hc : c.toNat < 128
  · rw [ofChar_ascii hc, List.mem_singleton] at h
    exact ⟨h, hc⟩
  · have := le_of_mem_utf8EncodeChar (Nat.not_lt.1 hc) (byte_mem_of_mem_ofChar h)
    omega

theorem toNat_byte_of_ascii {c : Char} (h : c.toNat < 128) : c.val.toUInt8.toNat = c.toNat := by
  rw [UInt32.toNat_toUInt8]
  exact Nat.mod_eq_of_lt (Nat.lt_trans h (by decide))

theorem eq_of_byte_eq {c d : Char} {cell : Cell} (h : cell ∈ ofChar c) (hd : d.toNat < 128)
    (hb : cell.byte = d.val.toUInt8) : c = d := by
  have hn : cell.byte.toNat = d.toNat := by rw [hb, toNat_byte_of_ascii hd]
  obtain ⟨he, hc⟩ := eq_of_mem_ofChar h (hn ▸ hd)
  apply Char.toNat_inj.1
  rw [← toNat_byte_of_ascii hc, ← hn, he]

theorem chars_layout (chars : List Char) : Cell.chars (layout chars) = chars := by
  induction chars with
  | nil => rfl
  | cons c rest ih =>
    obtain ⟨byte, others, ho, _⟩ := ofChar_eq_cons c
    have hn : (others.map fun byte => (⟨byte, none⟩ : Cell)).filterMap char? = [] := by
      rw [List.filterMap_eq_nil_iff]
      intro cell hm
      obtain ⟨other, _, rfl⟩ := List.mem_map.1 hm
      rfl
    have hc : (⟨byte, some c⟩ : Cell).char? = some c := rfl
    rw [layout_cons, Cell.chars, List.filterMap_append, ho, List.filterMap_cons_some hc, hn]
    exact congrArg (c :: ·) ih

@[simp] theorem text_layout (chars : List Char) : text (layout chars) = String.ofList chars := by
  rw [text, chars_layout]

theorem forall_mem_layout {chars : List Char} {P : Cell → Prop}
    (h : ∀ c ∈ chars, ∀ cell ∈ ofChar c, P cell) : ∀ cell ∈ layout chars, P cell := by
  intro cell hm
  obtain ⟨c, hc, hcell⟩ := List.mem_flatMap.1 hm
  exact h c hc cell hcell

theorem within_of_begins {cell : Cell} {cls : Char → Bool} (h : cell.begins cls) :
    cell.within cls := by
  cases hc : cell.char? with
  | none => rw [begins, hc] at h; cases h
  | some c => rw [begins, hc] at h; rw [within, hc]; exact h

theorem within_mono {cell : Cell} {cls cls' : Char → Bool} (hi : ∀ c, cls c → cls' c)
    (h : cell.within cls) : cell.within cls' := by
  rw [within] at h ⊢
  split
  · next c hc =>
    rw [hc] at h
    exact hi c h
  · rfl

/-- Whether the byte of an ASCII character stands for that character. -/
def IsFaithful (cell : Cell) : Prop :=
  ∀ c : Char, c.toNat < 128 → cell.isAscii c → cell.char? = some c

theorem isFaithful_of_mem_layout (chars : List Char) : ∀ cell ∈ layout chars, cell.IsFaithful := by
  apply forall_mem_layout
  intro d _ cell hm c hc ha
  have hb : cell.byte = c.val.toUInt8 := of_decide_eq_true ha
  have hn : cell.byte.toNat < 128 := by rwa [hb, toNat_byte_of_ascii hc]
  rw [(eq_of_mem_ofChar hm hn).1, eq_of_byte_eq hm hc hb]

theorem IsFaithful.not_within {cell : Cell} (hf : cell.IsFaithful) {cls : Char → Bool} {c : Char}
    (hb : cell.byte = c.val.toUInt8) (hc : c.toNat < 128) (hn : cls c = false) :
    cell.within cls = false := by
  rw [within, hf c hc (decide_eq_true hb)]
  exact hn

theorem IsFaithful.byte_ne {cell : Cell} (hf : cell.IsFaithful) {cls : Char → Bool}
    (h : cell.within cls) {c : Char} (hc : c.toNat < 128) (hn : cls c = false) :
    cell.byte ≠ c.val.toUInt8 := by
  intro hb
  rw [hf.not_within hb hc hn] at h
  cases h

end CodeOutline.Cell
