/-
Texts and strings.

A code point that is no surrogate is a character (`CodePoint.exists_toChar`), and
no character is a surrogate. So the texts without surrogates are the strings
(`Text.exists_toString`), and these are the texts that can be written
(`Text.exists_encode_iff`).
-/
import CommandTrace.Encoding.Surrogate

namespace CommandTrace

namespace CodePoint

theorem value_injective {p q : CodePoint} (h : p.value = q.value) : p = q := by
  cases p
  cases q
  simpa using h

theorem ofChar_injective {c d : Char} (h : ofChar c = ofChar d) : c = d :=
  Char.toNat_inj.1 (congrArg value h)

theorem isSurrogate_ofChar (c : Char) : (ofChar c).isSurrogate = false := by
  have hvalid : c.toNat < 0xD800 ∨ 0xDFFF < c.toNat ∧ c.toNat < 0x110000 := c.valid
  have hvalue : (ofChar c).value = c.toNat := rfl
  rw [isSurrogate, hvalue, Bool.eq_false_iff, ne_eq, Bool.and_eq_true, decide_eq_true_eq, decide_eq_true_eq]
  omega

theorem exists_toChar {p : CodePoint} (h : p.isSurrogate = false) :
    ∃ c, p.toChar? = some c ∧ ofChar c = p := by
  refine ⟨Char.ofNat p.value, by simp [toChar?, h], ?_⟩
  have hlt := p.isLt
  have hvalid : p.value.isValidChar := by
    simp only [isSurrogate, Bool.and_eq_false_iff, decide_eq_false_iff_not] at h
    simp only [Nat.isValidChar]
    omega
  have hvalue : (Char.ofNat p.value).toNat = p.value := by
    rw [Char.ofNat, dif_pos hvalid]
    rfl
  obtain ⟨value, isLt⟩ := p
  rw [ofChar, mk.injEq, hvalue]

end CodePoint

namespace Text

theorem ofChars_inj {cs ds : List Char} : ofChars cs = ofChars ds ↔ cs = ds :=
  List.map_inj_right fun _ _ => CodePoint.ofChar_injective

theorem isSurrogate_ofString {s : String} {p : CodePoint} (h : p ∈ ofString s) : p.isSurrogate = false := by
  obtain ⟨c, -, rfl⟩ := List.mem_map.1 h
  exact CodePoint.isSurrogate_ofChar c

theorem ofString_append (s s' : String) : ofString (s ++ s') = ofString s ++ ofString s' := by
  simp [ofString, ofChars]

/-- A text without surrogates is a string. -/
theorem exists_toString {t : Text} (h : ∀ p ∈ t, p.isSurrogate = false) :
    ∃ s, t.toString? = some s ∧ ofString s = t := by
  suffices ∃ cs, t.mapM CodePoint.toChar? = some cs ∧ ofChars cs = t by
    obtain ⟨cs, hcs, hof⟩ := this
    exact ⟨String.ofList cs, by rw [toString?, hcs]; rfl, by simpa [ofString] using hof⟩
  induction t with
  | nil => exact ⟨[], rfl, rfl⟩
  | cons p t ih =>
    obtain ⟨c, hc, rfl⟩ := CodePoint.exists_toChar (h p (by simp))
    obtain ⟨cs, hcs, rfl⟩ := ih fun q hq => h q (by simp [hq])
    exact ⟨c :: cs, by simp [hc, hcs], rfl⟩

theorem ofString_shown {t : Text} (h : ∀ p ∈ t, p.isSurrogate = false) : ofString t.shown = t := by
  have hpoint : ∀ p ∈ t, CodePoint.ofChar (p.toChar?.getD '\uFFFD') = p := by
    intro p hp
    obtain ⟨c, hc, hof⟩ := CodePoint.exists_toChar (h p hp)
    rw [hc, Option.getD_some, hof]
  rw [shown, toStringWith, ofString, String.toList_ofList, ofChars, List.map_map]
  exact (List.map_congr_left hpoint).trans (List.map_id t)

theorem exists_encode {t : Text} (h : ∀ p ∈ t, p.isSurrogate = false) :
    ∃ s, t.encode = .ok s ∧ ofString s = t := by
  obtain ⟨s, hs, hof⟩ := exists_toString h
  exact ⟨s, by rw [encode, hs], hof⟩

theorem isSurrogate_of_mapM {t : Text} {cs : List Char} (h : t.mapM CodePoint.toChar? = some cs) :
    ∀ p ∈ t, p.isSurrogate = false := by
  induction t generalizing cs with
  | nil => simp
  | cons p t ih =>
    simp only [List.mapM_cons, Option.bind_eq_bind, Option.bind_eq_some_iff] at h
    obtain ⟨c, hc, others, hothers, -⟩ := h
    have hp : p.isSurrogate = false := by
      rw [CodePoint.toChar?] at hc
      split at hc
      · cases hc
      · next hnot => exact Bool.eq_false_iff.2 hnot
    exact List.forall_mem_cons.2 ⟨hp, ih hothers⟩

theorem exists_encode_iff {t : Text} : (∃ s, t.encode = .ok s) ↔ ∀ p ∈ t, p.isSurrogate = false := by
  constructor
  · rintro ⟨s, hs⟩
    rw [encode] at hs
    split at hs
    · next hstring =>
      obtain ⟨cs, hcs, -⟩ := Option.map_eq_some_iff.1 hstring
      exact isSurrogate_of_mapM hcs
    · cases hs
  · intro h
    obtain ⟨s, hs, -⟩ := exists_encode h
    exact ⟨s, hs⟩

end Text

end CommandTrace
