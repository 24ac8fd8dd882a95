import RemoteMount.Text.Utf8
import Mathlib.Data.String.Basic
import Mathlib.Tactic.ByContra

namespace RemoteMount.Text

variable {bytes rest : List UInt8} {b low high : UInt8} {v missing bits : Nat}

section Writing

theorem toList_loop (a : ByteArray) (i : Nat) (l : List UInt8) :
    ByteArray.toList.loop a i l = l.reverse ++ a.data.toList.drop i := by
  fun_induction ByteArray.toList.loop a i l with
  | case1 i l h ih =>
    have hi : i < a.data.toList.length := h
    rw [ih, List.drop_eq_getElem_cons hi, List.reverse_cons, List.append_assoc]
    simp [ByteArray.get!, h]
  | case2 i l h =>
    have hi : a.data.toList.length ≤ i := Nat.le_of_not_lt h
    rw [List.drop_eq_nil_of_le hi, List.append_nil]

theorem encode_eq (s : String) : encode s = s.toList.flatMap String.utf8EncodeChar := by
  have hbytes : s.toUTF8 = (s.toList.flatMap String.utf8EncodeChar).toByteArray :=
    String.utf8Encode_toList.symm
  rw [encode, ByteArray.toList, toList_loop, hbytes, List.toList_data_toByteArray]
  rfl

theorem utf8EncodeChar_ofNat (hv : v.isValidChar) : String.utf8EncodeChar (Char.ofNat v) =
    if v ≤ 127 then [UInt8.ofNat v]
    else if v ≤ 2047 then [UInt8.ofNat (v / 64 % 32 + 192), UInt8.ofNat (v % 64 + 128)]
    else if v ≤ 65535 then
      [UInt8.ofNat (v / 4096 % 16 + 224), UInt8.ofNat (v / 64 % 64 + 128),
        UInt8.ofNat (v % 64 + 128)]
    else
      [UInt8.ofNat (v / 262144 % 8 + 240), UInt8.ofNat (v / 4096 % 64 + 128),
        UInt8.ofNat (v / 64 % 64 + 128),
        UInt8.ofNat (v % 64 + 128)] := by
  have htoNat : (Char.ofNat v).val.toNat = v := by
    rw [Char.ofNat, dif_pos hv]
    rfl
  simp only [String.utf8EncodeChar, htoNat]

end Writing

section Reading

theorem lead_ofNat (h : v < 256) : lead (UInt8.ofNat v) =
    if v < 0x80 then .ascii (Char.ofNat v)
    else if v < 0xC2 then .stray
    else if v < 0xE0 then .begun ⟨1, 0x80, 0xBF, v - 0xC0⟩
    else if v = 0xE0 then .begun ⟨2, 0xA0, 0xBF, 0⟩
    else if v = 0xED then .begun ⟨2, 0x80, 0x9F, 0xD⟩
    else if v < 0xF0 then .begun ⟨2, 0x80, 0xBF, v - 0xE0⟩
    else if v = 0xF0 then .begun ⟨3, 0x90, 0xBF, 0⟩
    else if v < 0xF4 then .begun ⟨3, 0x80, 0xBF, v - 0xF0⟩
    else if v = 0xF4 then .begun ⟨3, 0x80, 0x8F, 4⟩
    else .stray := by
  have hv : (UInt8.ofNat v).toNat = v := UInt8.toNat_ofNat_of_lt' h
  have heq : ∀ k : UInt8, UInt8.ofNat v = k ↔ v = k.toNat := fun k ↦ by rw [← UInt8.toNat_inj, hv]
  simp only [lead, UInt8.lt_iff_toNat_lt, heq, hv]
  rfl

theorem decodeFrom_begun (h : low ≤ b ∧ b ≤ high) :
    decodeFrom (some ⟨missing, low, high, bits⟩) (b :: rest) =
    if missing ≤ 1 then some (Char.ofNat (bits * 64 + (b.toNat - 0x80))) :: decodeFrom none rest
    else decodeFrom (some ⟨missing - 1, 0x80, 0xBF, bits * 64 + (b.toNat - 0x80)⟩) rest := by
  rw [decodeFrom, if_pos h]

theorem le_and_le_iff (low high b : UInt8) :
    low ≤ b ∧ b ≤ high ↔ low.toNat ≤ b.toNat ∧ b.toNat ≤ high.toNat := by
  rw [UInt8.le_iff_toNat_le, UInt8.le_iff_toNat_le]

theorem goesOn_iff {p : Nat → Prop} :
    (0x80 ≤ b.toNat ∧ b.toNat ≤ 0xBF) ∧ p (b.toNat - 0x80) ↔
    ∃ n < 64, b = UInt8.ofNat (n + 128) ∧ p n := by
  constructor
  · rintro ⟨⟨hlow, hhigh⟩, hp⟩
    refine ⟨b.toNat - 0x80, by omega, ?_, hp⟩
    rw [Nat.sub_add_cancel hlow, UInt8.ofNat_toNat]
  · rintro ⟨n, hn, rfl, hp⟩
    have hbyte : (UInt8.ofNat (n + 128)).toNat = n + 128 :=
      UInt8.toNat_ofNat_of_lt' (by simp only [UInt8.size]; omega)
    rw [hbyte, Nat.add_sub_cancel]
    exact ⟨by omega, hp⟩

theorem lead_three (v : Nat) (h : 0xE0 ≤ v ∧ v < 0xF0) :
    ∃ low high, lead (UInt8.ofNat v) = .begun ⟨2, low, high, v - 0xE0⟩ ∧
    ∀ b : UInt8, low ≤ b ∧ b ≤ high ↔ ∃ n < 64, b = UInt8.ofNat (n + 128) ∧
      (0x20 ≤ (v - 0xE0) * 64 + n ∧ (v - 0xE0) * 64 + n < 0x360 ∨ 0x380 ≤ (v - 0xE0) * 64 + n) := by
  simp only [le_and_le_iff, ← goesOn_iff]
  rw [lead_ofNat (by omega), if_neg (by omega), if_neg (by omega), if_neg (by omega)]
  split
  · rename_i he
    refine ⟨_, _, by rw [he], fun b ↦ ?_⟩
    simp only [UInt8.reduceToNat]
    omega
  · split
    · rename_i he
      refine ⟨_, _, by rw [he], fun b ↦ ?_⟩
      simp only [UInt8.reduceToNat]
      omega
    · rw [if_pos h.2]
      refine ⟨_, _, rfl, fun b ↦ ?_⟩
      simp only [UInt8.reduceToNat]
      omega

theorem lead_four (v : Nat) (h : 0xF0 ≤ v ∧ v < 0xF5) :
    ∃ low high, lead (UInt8.ofNat v) = .begun ⟨3, low, high, v - 0xF0⟩ ∧
    ∀ b : UInt8, low ≤ b ∧ b ≤ high ↔ ∃ n < 64, b = UInt8.ofNat (n + 128) ∧
      (0x10 ≤ (v - 0xF0) * 64 + n ∧ (v - 0xF0) * 64 + n < 0x110) := by
  simp only [le_and_le_iff, ← goesOn_iff]
  rw [lead_ofNat (by omega), if_neg (by omega), if_neg (by omega), if_neg (by omega),
    if_neg (by omega), if_neg (by omega), if_neg (by omega)]
  split
  · rename_i he
    refine ⟨_, _, by rw [he], fun b ↦ ?_⟩
    simp only [UInt8.reduceToNat]
    omega
  · split
    · refine ⟨_, _, rfl, fun b ↦ ?_⟩
      simp only [UInt8.reduceToNat]
      omega
    · have he : v = 0xF4 := by omega
      rw [if_pos he]
      refine ⟨_, _, by rw [he], fun b ↦ ?_⟩
      simp only [UInt8.reduceToNat]
      omega

theorem bounds_tail : (0x80 : UInt8) ≤ b ∧ b ≤ 0xBF ↔ ∃ n < 64, b = UInt8.ofNat (n + 128) := by
  rw [le_and_le_iff]
  simpa using @goesOn_iff b fun _ ↦ True

section Written

variable {n : Nat}

theorem decodeFrom_goesOn (hn : n < 64)
    (hb : low ≤ UInt8.ofNat (n + 128) ∧ UInt8.ofNat (n + 128) ≤ high) :
    decodeFrom (some ⟨missing, low, high, bits⟩) (UInt8.ofNat (n + 128) :: rest) =
      if missing ≤ 1 then some (Char.ofNat (bits * 64 + n)) :: decodeFrom none rest
      else decodeFrom (some ⟨missing - 1, 0x80, 0xBF, bits * 64 + n⟩) rest := by
  have hbyte : (UInt8.ofNat (n + 128)).toNat = n + 128 :=
    UInt8.toNat_ofNat_of_lt' (by simp only [UInt8.size]; omega)
  rw [decodeFrom_begun hb, hbyte, Nat.add_sub_cancel]

theorem decodeFrom_tail (hn : n < 64) :
    decodeFrom (some ⟨missing, 0x80, 0xBF, bits⟩) (UInt8.ofNat (n + 128) :: rest) =
      if missing ≤ 1 then some (Char.ofNat (bits * 64 + n)) :: decodeFrom none rest
      else decodeFrom (some ⟨missing - 1, 0x80, 0xBF, bits * 64 + n⟩) rest :=
  decodeFrom_goesOn hn (bounds_tail.2 ⟨n, hn, rfl⟩)

/-- A character is read as it was written, whatever follows. -/
theorem decodeFrom_encodeChar (c : Char) (rest : List UInt8) :
    decodeFrom none (String.utf8EncodeChar c ++ rest) = some c :: decodeFrom none rest := by
  have hc : Char.ofNat c.toNat = c := Char.ofNat_toNat c
  have hvalid : c.toNat.isValidChar := c.valid
  rw [← hc]
  generalize c.toNat = v at hvalid
  have hrange : v < 0xD800 ∨ 0xDFFF < v ∧ v < 0x110000 := hvalid
  rw [utf8EncodeChar_ofNat hvalid]
  -- One, two, three and four bytes: the first one tells how many, the others give six bits each.
  split
  · have hlead : lead (UInt8.ofNat v) = .ascii (Char.ofNat v) := by
      rw [lead_ofNat (by omega), if_pos (by omega)]
    rw [List.singleton_append, decodeFrom, hlead]
  split
  · have hlead : lead (UInt8.ofNat (v / 64 % 32 + 192)) =
        .begun ⟨1, 0x80, 0xBF, v / 64 % 32 + 192 - 0xC0⟩ := by
      rw [lead_ofNat (by omega), if_neg (by omega), if_neg (by omega), if_pos (by omega)]
    have hbits : (v / 64 % 32 + 192 - 0xC0) * 64 + v % 64 = v := by omega
    rw [List.cons_append, List.singleton_append, decodeFrom, hlead]
    dsimp only
    rw [decodeFrom_tail (by omega), if_pos (Nat.le_refl 1), hbits]
  split
  · obtain ⟨low, high, hlead, hbounds⟩ := lead_three (v / 4096 % 16 + 224) (by omega)
    have hsecond := (hbounds (UInt8.ofNat (v / 64 % 64 + 128))).2
      ⟨v / 64 % 64, by omega, rfl, by omega⟩
    have hbits : ((v / 4096 % 16 + 224 - 0xE0) * 64 + v / 64 % 64) * 64 + v % 64 = v := by omega
    rw [List.cons_append, List.cons_append, List.singleton_append, decodeFrom, hlead]
    dsimp only
    rw [decodeFrom_goesOn (by omega) hsecond, if_neg (by omega), decodeFrom_tail (by omega),
      if_pos (by omega), hbits]
  · obtain ⟨low, high, hlead, hbounds⟩ := lead_four (v / 262144 % 8 + 240) (by omega)
    have hsecond := (hbounds (UInt8.ofNat (v / 4096 % 64 + 128))).2
      ⟨v / 4096 % 64, by omega, rfl, by omega⟩
    have hbits : (((v / 262144 % 8 + 240 - 0xF0) * 64 + v / 4096 % 64) * 64 + v / 64 % 64) * 64 +
        v % 64 = v := by
      omega
    rw [List.cons_append, List.cons_append, List.cons_append, List.singleton_append,
      decodeFrom, hlead]
    dsimp only
    rw [decodeFrom_goesOn (by omega) hsecond, if_neg (by omega), decodeFrom_tail (by omega),
      if_neg (by omega), decodeFrom_tail (by omega), if_pos (by omega), hbits]

end Written

section Decoded

variable {n : Nat}

theorem exists_of_decodeFrom_begun (h : none ∉ decodeFrom (some ⟨missing, low, high, bits⟩) bytes) :
    ∃ b rest, bytes = b :: rest ∧ (low ≤ b ∧ b ≤ high) ∧ ∀ n < 64, b = UInt8.ofNat (n + 128) →
    1 < missing →
      none ∉ decodeFrom (some ⟨missing - 1, 0x80, 0xBF, bits * 64 + n⟩) rest := by
  cases bytes with
  | nil => exact absurd List.mem_cons_self h
  | cons b rest =>
    by_cases hb : low ≤ b ∧ b ≤ high
    · refine ⟨b, rest, rfl, hb, fun n hn he hm ↦ ?_⟩
      rw [he] at h hb
      rwa [decodeFrom_goesOn hn hb, if_neg (Nat.not_le.2 hm)] at h
    · rw [decodeFrom, if_neg hb] at h
      split at h <;> exact absurd List.mem_cons_self h

theorem exists_of_decodeFrom_tail (h : none ∉ decodeFrom (some ⟨missing, 0x80, 0xBF, bits⟩) bytes) :
    ∃ n rest, n < 64 ∧ bytes = UInt8.ofNat (n + 128) :: rest ∧
      (1 < missing → none ∉ decodeFrom (some ⟨missing - 1, 0x80, 0xBF, bits * 64 + n⟩) rest) := by
  obtain ⟨b, rest, rfl, hb, hrest⟩ := exists_of_decodeFrom_begun h
  obtain ⟨n, hn, rfl⟩ := bounds_tail.1 hb
  exact ⟨n, rest, hn, rfl, hrest n hn rfl⟩

theorem range_of_lead (hn : n < 256) (h : lead (UInt8.ofNat n) ≠ .stray) :
    n < 0x80 ∨ 0xC2 ≤ n ∧ n < 0xF5 := by
  by_contra hout
  rw [lead_ofNat hn] at h
  repeat' split at h
  all_goals first | omega | exact h rfl

theorem exists_char_two (hn : 0xC2 ≤ n ∧ n < 0xE0)
    (h : none ∉ decodeFrom none (UInt8.ofNat n :: bytes)) :
    ∃ c rest, UInt8.ofNat n :: bytes = String.utf8EncodeChar c ++ rest := by
  have hlead : lead (UInt8.ofNat n) = .begun ⟨1, 0x80, 0xBF, n - 0xC0⟩ := by
    rw [lead_ofNat (by omega), if_neg (by omega), if_neg (by omega), if_pos hn.2]
  rw [decodeFrom, hlead] at h
  obtain ⟨k, rest, hk, rfl, -⟩ := exists_of_decodeFrom_tail h
  refine ⟨Char.ofNat ((n - 0xC0) * 64 + k), rest, ?_⟩
  have hfirst : ((n - 0xC0) * 64 + k) / 64 % 32 + 192 = n := by omega
  have hsecond : ((n - 0xC0) * 64 + k) % 64 = k := by omega
  rw [utf8EncodeChar_ofNat (.inl (by omega)), if_neg (by omega), if_pos (by omega), hfirst, hsecond]
  rfl

theorem exists_char_three (hn : 0xE0 ≤ n ∧ n < 0xF0)
    (h : none ∉ decodeFrom none (UInt8.ofNat n :: bytes)) :
    ∃ c rest, UInt8.ofNat n :: bytes = String.utf8EncodeChar c ++ rest := by
  obtain ⟨low, high, hlead, hbounds⟩ := lead_three n hn
  rw [decodeFrom, hlead] at h
  obtain ⟨b, tail, rfl, hb, h'⟩ := exists_of_decodeFrom_begun h
  obtain ⟨k, hk, rfl, hrange⟩ := (hbounds b).1 hb
  obtain ⟨l, rest, hl, rfl, -⟩ := exists_of_decodeFrom_tail (h' k hk rfl (by decide))
  have hvalid : (((n - 0xE0) * 64 + k) * 64 + l).isValidChar := by
    unfold Nat.isValidChar
    omega
  refine ⟨Char.ofNat (((n - 0xE0) * 64 + k) * 64 + l), rest, ?_⟩
  have hfirst : (((n - 0xE0) * 64 + k) * 64 + l) / 4096 % 16 + 224 = n := by omega
  have hsecond : (((n - 0xE0) * 64 + k) * 64 + l) / 64 % 64 = k := by omega
  have hthird : (((n - 0xE0) * 64 + k) * 64 + l) % 64 = l := by omega
  rw [utf8EncodeChar_ofNat hvalid, if_neg (by omega), if_neg (by omega), if_pos (by omega), hfirst,
    hsecond, hthird]
  rfl

theorem exists_char_four (hn : 0xF0 ≤ n ∧ n < 0xF5)
    (h : none ∉ decodeFrom none (UInt8.ofNat n :: bytes)) :
    ∃ c rest, UInt8.ofNat n :: bytes = String.utf8EncodeChar c ++ rest := by
  obtain ⟨low, high, hlead, hbounds⟩ := lead_four n hn
  rw [decodeFrom, hlead] at h
  obtain ⟨b, tail, rfl, hb, h'⟩ := exists_of_decodeFrom_begun h
  obtain ⟨k, hk, rfl, hrange⟩ := (hbounds b).1 hb
  obtain ⟨l, tail, hl, rfl, h''⟩ := exists_of_decodeFrom_tail (h' k hk rfl (by decide))
  obtain ⟨m, rest, hm, rfl, -⟩ := exists_of_decodeFrom_tail (h'' (by decide))
  have hvalid : ((((n - 0xF0) * 64 + k) * 64 + l) * 64 + m).isValidChar := by
    unfold Nat.isValidChar
    omega
  refine ⟨Char.ofNat ((((n - 0xF0) * 64 + k) * 64 + l) * 64 + m), rest, ?_⟩
  have hfirst : ((((n - 0xF0) * 64 + k) * 64 + l) * 64 + m) / 262144 % 8 + 240 = n := by omega
  have hsecond : ((((n - 0xF0) * 64 + k) * 64 + l) * 64 + m) / 4096 % 64 = k := by omega
  have hthird : ((((n - 0xF0) * 64 + k) * 64 + l) * 64 + m) / 64 % 64 = l := by omega
  have hfourth : ((((n - 0xF0) * 64 + k) * 64 + l) * 64 + m) % 64 = m := by omega
  rw [utf8EncodeChar_ofNat hvalid, if_neg (by omega), if_neg (by omega), if_neg (by omega), hfirst,
    hsecond, hthird, hfourth]
  rfl

theorem exists_char_of_decodeFrom (h : none ∉ decodeFrom none (b :: bytes)) :
    ∃ c rest, b :: bytes = String.utf8EncodeChar c ++ rest := by
  have hlt : b.toNat < 256 := b.toNat_lt
  have hb : b = UInt8.ofNat b.toNat := UInt8.ofNat_toNat.symm
  rw [hb] at h ⊢
  generalize b.toNat = n at h hlt
  have hlead : lead (UInt8.ofNat n) ≠ .stray := by
    intro hl
    rw [decodeFrom, hl] at h
    exact h List.mem_cons_self
  have hrange := range_of_lead hlt hlead
  rcases Nat.lt_or_ge n 0x80 with hone | hmore
  · refine ⟨Char.ofNat n, bytes, ?_⟩
    rw [utf8EncodeChar_ofNat (.inl (by omega)), if_pos (by omega), List.singleton_append]
  rcases Nat.lt_or_ge n 0xE0 with htwo | hmore
  · exact exists_char_two (by omega) h
  rcases Nat.lt_or_ge n 0xF0 with hthree | hmore
  · exact exists_char_three ⟨hmore, hthree⟩ h
  · exact exists_char_four (by omega) h

/-- Bytes of which none is undecodable are what the characters in them are written as. -/
theorem eq_of_decodeFrom (h : none ∉ decodeFrom none bytes) :
    bytes = ((decodeFrom none bytes).filterMap id).flatMap String.utf8EncodeChar := by
  induction hn : bytes.length using Nat.strongRecOn generalizing bytes with
  | ind n ih =>
    cases bytes with
    | nil => rfl
    | cons b bytes =>
      obtain ⟨c, rest, hc⟩ := exists_char_of_decodeFrom h
      rw [hc, decodeFrom_encodeChar] at h ⊢
      have hshort : rest.length < n := by
        have hpos := c.utf8Size_pos
        rw [← hn, hc, List.length_append, String.length_utf8EncodeChar]
        omega
      have hrest := ih rest.length hshort (List.not_mem_of_not_mem_cons h) rfl
      exact congrArg (String.utf8EncodeChar c ++ ·) hrest

end Decoded

end Reading

theorem decodeFrom_flatMap (l : List Char) :
    decodeFrom none (l.flatMap String.utf8EncodeChar) = l.map some := by
  induction l with
  | nil => rfl
  | cons c l ih => rw [List.flatMap_cons, decodeFrom_encodeChar, ih, List.map_cons]

theorem decode?_eq_some_iff {s : String} : decode? bytes = some s ↔ bytes = encode s := by
  rw [encode_eq]
  constructor
  · intro h
    unfold decode? at h
    dsimp only at h
    split at h
    · rename_i hall
      have hnone : none ∉ decodeFrom none bytes := fun hm ↦ nomatch List.all_eq_true.1 hall none hm
      rw [← Option.some_inj.1 h, String.toList_ofList]
      exact eq_of_decodeFrom hnone
    · cases h
  · rintro rfl
    simp [decode?, decodeFrom_flatMap]

theorem encode_injective {s t : String} (h : encode s = encode t) : s = t :=
  Option.some_inj.1 ((decode?_eq_some_iff.2 rfl).symm.trans (decode?_eq_some_iff.2 h))

section Letters

variable {c d : Char} {n m : Nat}

theorem ofNat_eq_ofNat_iff (hn : n < 256) (hm : m < 256) :
    UInt8.ofNat n = UInt8.ofNat m ↔ n = m := by
  rw [← UInt8.toNat_inj, UInt8.toNat_ofNat_of_lt' hn, UInt8.toNat_ofNat_of_lt' hm]

theorem ofNat_lt_ofNat_iff (hn : n < 256) (hm : m < 256) :
    UInt8.ofNat n < UInt8.ofNat m ↔ n < m := by
  rw [UInt8.lt_iff_toNat_lt, UInt8.toNat_ofNat_of_lt' hn, UInt8.toNat_ofNat_of_lt' hm]

theorem ofNat_mem_utf8EncodeChar_iff (hn : n < 128) (c : Char) :
    UInt8.ofNat n ∈ String.utf8EncodeChar c ↔ c.toNat = n := by
  have hc : Char.ofNat c.toNat = c := Char.ofNat_toNat c
  have hvalid : c.toNat.isValidChar := c.valid
  rw [← hc, utf8EncodeChar_ofNat hvalid, hc]
  generalize c.toNat = v at hvalid
  have hrange : v < 0xD800 ∨ 0xDFFF < v ∧ v < 0x110000 := hvalid
  repeat' split
  all_goals
    simp only [List.mem_cons, List.not_mem_nil, or_false]
    repeat rw [ofNat_eq_ofNat_iff (by omega) (by omega)]
    omega

theorem utf8EncodeChar_lt (h : c < d) (rest rest' : List UInt8) :
    String.utf8EncodeChar c ++ rest < String.utf8EncodeChar d ++ rest' := by
  have hc : Char.ofNat c.toNat = c := Char.ofNat_toNat c
  have hd : Char.ofNat d.toNat = d := Char.ofNat_toNat d
  have hcv : c.toNat.isValidChar := c.valid
  have hdv : d.toNat.isValidChar := d.valid
  have hlt : c.toNat < d.toNat := h
  rw [← hc, ← hd]
  generalize c.toNat = v at hcv hlt
  generalize d.toNat = w at hdv hlt
  have hv : v < 0xD800 ∨ 0xDFFF < v ∧ v < 0x110000 := hcv
  have hw : w < 0xD800 ∨ 0xDFFF < w ∧ w < 0x110000 := hdv
  -- The digits in base 64 come from each other; the bytes carry them in turn.
  have hdigits (k : Nat) (hk : k < 0x110000) :
      k / 4096 = k / 64 / 64 ∧ k / 262144 = k / 64 / 64 / 64 ∧
        k / 64 / 64 / 64 % 8 = k / 64 / 64 / 64 := by
    refine ⟨?_, ?_, Nat.mod_eq_of_lt (by omega)⟩
    · rw [Nat.div_div_eq_div_mul]
    · simp only [Nat.div_div_eq_div_mul]
  obtain ⟨hv₁, hv₂, hv₃⟩ := hdigits v (by omega)
  obtain ⟨hw₁, hw₂, hw₃⟩ := hdigits w (by omega)
  rw [utf8EncodeChar_ofNat hcv, utf8EncodeChar_ofNat hdv, hv₁, hv₂, hv₃, hw₁, hw₂, hw₃]
  repeat' split
  all_goals
    simp only [List.cons_append, List.nil_append, List.cons_lt_cons_iff]
    repeat rw [ofNat_lt_ofNat_iff (by omega) (by omega)]
    repeat rw [ofNat_eq_ofNat_iff (by omega) (by omega)]
    omega

theorem ascii_mem_encode_iff (hc : c.toNat < 128) (s : String) :
    UInt8.ofNat c.toNat ∈ encode s ↔ c ∈ s.toList := by
  simp only [encode_eq, List.mem_flatMap, ofNat_mem_utf8EncodeChar_iff hc, Char.toNat_inj,
    exists_eq_right]

theorem flatMap_utf8EncodeChar_lt {l m : List Char} (h : l < m) :
    l.flatMap String.utf8EncodeChar < m.flatMap String.utf8EncodeChar := by
  induction l generalizing m with
  | nil =>
    cases m with
    | nil => exact absurd h (List.lt_irrefl _)
    | cons d m =>
      obtain ⟨b, bytes, hb⟩ := List.exists_cons_of_ne_nil (List.ne_nil_of_length_pos
        ((String.length_utf8EncodeChar d).symm ▸ d.utf8Size_pos))
      rw [List.flatMap_cons, hb]
      exact List.nil_lt_cons _ _
  | cons c l ih =>
    cases m with
    | nil => cases h
    | cons d m =>
      rw [List.flatMap_cons, List.flatMap_cons]
      rcases List.cons_lt_cons_iff.1 h with hlt | ⟨rfl, hlt⟩
      · exact utf8EncodeChar_lt hlt _ _
      · exact List.append_left_lt (ih hlt)

/-- Texts are ordered like their bytes. -/
theorem encode_lt_encode_iff {s t : String} : encode s < encode t ↔ s < t := by
  have hmono {s t : String} (h : s < t) : encode s < encode t := by
    rw [encode_eq, encode_eq]
    exact flatMap_utf8EncodeChar_lt (String.lt_iff.1 h)
  constructor
  · intro h
    rcases lt_trichotomy s t with hlt | heq | hgt
    · exact hlt
    · exact absurd (heq ▸ h) (List.lt_irrefl _)
    · exact absurd (List.lt_trans h (hmono hgt)) (List.lt_irrefl _)
  · exact hmono

end Letters

end RemoteMount.Text
