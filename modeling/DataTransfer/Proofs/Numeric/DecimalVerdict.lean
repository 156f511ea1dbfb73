import DataTransfer.Proofs.Bytes
import DataTransfer.Proofs.Numeric.DecimalGrammar

/-!
What the parser reports of a text. Offsets count bytes, and the texts of the grammar are visible ASCII
characters, so a text leaves the grammar at the first byte with which no text of the grammar goes on.
-/

namespace DataTransfer.Decimal

variable {text cs : List Char} {c letter : Char}

/-! ### Bytes -/

def utf8 (cs : List Char) : List UInt8 := cs.flatMap String.utf8EncodeChar

def IsVisible (c : Char) : Prop := 32 < c.toNat ∧ c.toNat < 127

instance : DecidablePred IsVisible := fun _ => inferInstanceAs (Decidable (_ ∧ _))

theorem IsVisible.isBlank (h : IsVisible c) : Text.isBlank c = false := by
  obtain ⟨hlow, hhigh⟩ := h
  unfold Char.toNat at hlow hhigh
  by_contra hblank
  simp only [Text.isBlank, Char.le_def, Char.ext_iff, UInt32.le_iff_toNat_le, ← UInt32.toNat_inj,
    Bool.not_eq_false, Bool.or_eq_true, Bool.and_eq_true, decide_eq_true_eq] at hblank
  simp only [Char.reduceVal, UInt32.reduceToNat] at hblank
  omega

theorem isVisible_of_isDigit (h : c.isDigit = true) : IsVisible c := by
  rw [isDigit_iff] at h
  unfold IsVisible
  omega

theorem isVisible_of_isAlpha (h : c.isAlpha = true) : IsVisible c := by
  rw [isAlpha_iff] at h
  unfold IsVisible
  omega

def Visible (cs : List Char) : Prop := ∀ c ∈ cs, IsVisible c

theorem visible_append {as bs : List Char} : Visible (as ++ bs) ↔ Visible as ∧ Visible bs :=
  List.forall_mem_append

theorem visible_cons : Visible (c :: cs) ↔ IsVisible c ∧ Visible cs := List.forall_mem_cons

theorem Sign.visible_text (sign : Sign) : Visible sign.text := by
  cases sign with
  | none => nofun
  | plus => exact visible_cons.mpr ⟨by decide, nofun⟩
  | minus => exact visible_cons.mpr ⟨by decide, nofun⟩

theorem visible_digits (h : Digits cs) : Visible cs := fun c hc => isVisible_of_isDigit (h c hc)

theorem Significand.visible_text (s : Significand) : Visible s.text := by
  obtain ⟨whole, fraction, hwhole, hfraction⟩ := s
  refine visible_append.mpr ⟨visible_digits hwhole, ?_⟩
  cases fraction with
  | none => nofun
  | some ds => exact visible_cons.mpr ⟨by decide, visible_digits (hfraction ds rfl)⟩

theorem isVisible_letter (h : letter = 'e' ∨ letter = 'E') : IsVisible letter := by
  rcases h with rfl | rfl <;> decide

theorem Denotes.visible {v : DecimalValue} (h : Denotes cs v) : Visible cs := by
  have hword {word : List Char} (hword : IsSpecial word) : Visible word := fun c hc =>
    isVisible_of_isAlpha (hword.isAlpha c hc)
  cases h with
  | number n =>
    obtain ⟨sign, s, exponent, -⟩ := n
    refine visible_append.mpr ⟨sign.visible_text, visible_append.mpr ⟨s.visible_text, ?_⟩⟩
    cases exponent with
    | none => nofun
    | some e =>
      exact visible_cons.mpr ⟨isVisible_letter e.letter_eq,
        visible_append.mpr ⟨e.sign.visible_text, visible_digits e.digits_digits⟩⟩
  | infinity sign h =>
    exact visible_append.mpr ⟨sign.visible_text, hword (h.elim .inl fun h => .inr (.inl h))⟩
  | nan sign h => exact visible_append.mpr ⟨sign.visible_text, hword (.inr (.inr h))⟩

theorem IsStuck.visible {good : List Char} (h : IsStuck good c) : Visible good := by
  cases h with
  | significand sign s => exact visible_append.mpr ⟨sign.visible_text, s.visible_text⟩
  | exponent sign s inner hs hletter hdigits =>
    exact visible_append.mpr ⟨sign.visible_text, visible_append.mpr ⟨s.visible_text,
      visible_cons.mpr ⟨isVisible_letter hletter,
        visible_append.mpr ⟨inner.visible_text, visible_digits hdigits⟩⟩⟩⟩

theorem trim_visible (h : Visible cs) : Text.trim cs = cs := trim_eq_self fun c hc => (h c hc).isBlank

theorem map_utf8 (h : Visible cs) : (utf8 cs).map (fun b => Char.ofNat b.toNat) = cs :=
  Bytes.map_flatMap_utf8 fun c hc => (h c hc).2.trans (by decide)

theorem length_utf8 (h : Visible cs) : (utf8 cs).length = cs.length := by
  rw [← List.length_map, map_utf8 h]

/-- The character that is reported is the first byte. Only an ASCII character starts with a byte of
its own. -/
theorem utf8EncodeChar_eq (c : Char) : ∃ b more, String.utf8EncodeChar c = b :: more ∧
    leadByte c = Char.ofNat b.toNat ∧ (b.toNat < 128 → c = Char.ofNat b.toNat) := by
  have hvalid : c.toNat < 0x110000 := by
    have hscalar := c.valid
    unfold UInt32.isValidChar Nat.isValidChar at hscalar
    unfold Char.toNat
    omega
  have hchar : c = Char.ofNat c.toNat := (Char.ofNat_toNat c).symm
  have hbyte {n : ℕ} (hn : n < 256) : (UInt8.ofNat n).toNat = n := UInt8.toNat_ofNat_of_lt' hn
  have hcode : c.val.toNat = c.toNat := rfl
  simp only [leadByte, String.utf8EncodeChar, hcode]
  generalize c.toNat = n at hvalid hchar
  by_cases hone : n ≤ 127
  · rw [if_pos hone, if_pos (show n < 128 by omega)]
    exact ⟨_, _, rfl, by rwa [hbyte (by omega)], fun _ => by rwa [hbyte (by omega)]⟩
  rw [if_neg hone, if_neg (show ¬ n < 128 by omega)]
  -- The first byte of a longer form marks its length, above every ASCII byte.
  have hlong {lead m : ℕ} {bytes : List UInt8} (hlead : lead = m) (hlow : 128 ≤ lead)
      (hhigh : lead < 256) : ∃ b more, UInt8.ofNat lead :: bytes = b :: more ∧
        Char.ofNat m = Char.ofNat b.toNat ∧ (b.toNat < 128 → c = Char.ofNat b.toNat) := by
    refine ⟨_, _, rfl, by rw [hbyte hhigh, hlead], fun h => ?_⟩
    rw [hbyte hhigh] at h
    omega
  by_cases htwo : n ≤ 2047
  · rw [if_pos htwo, if_pos (show n < 2048 by omega)]
    exact hlong (by omega) (by omega) (by omega)
  rw [if_neg htwo, if_neg (show ¬ n < 2048 by omega)]
  by_cases hthree : n ≤ 65535
  · rw [if_pos hthree, if_pos (show n < 65536 by omega)]
    exact hlong (by omega) (by omega) (by omega)
  rw [if_neg hthree, if_neg (show ¬ n < 65536 by omega)]
  exact hlong (by omega) (by omega) (by omega)

/-- Bytes with which a text of the grammar begins. -/
def Begins (bs : List UInt8) : Prop := ∃ cs v, Denotes cs v ∧ bs <+: utf8 cs

/-- The first byte with which no text of the grammar goes on. -/
structure FirstBad (bs : List UInt8) (b : UInt8) (offset : ℕ) : Prop where
  byte : bs[offset]? = some b
  begins : Begins (bs.take offset)
  stops : ¬ Begins (bs.take (offset + 1))

section

variable {bs : List UInt8} {b d : UInt8} {m n : ℕ}

theorem Begins.of_prefix {more : List UInt8} (h : Begins more) (hbs : bs <+: more) : Begins bs := by
  obtain ⟨cs, v, hcs, hmore⟩ := h
  exact ⟨cs, v, hcs, hbs.trans hmore⟩

theorem FirstBad.not_begins (h : FirstBad bs b n) : ¬ Begins bs :=
  fun hbs => h.stops (hbs.of_prefix (List.take_prefix _ _))

theorem FirstBad.le (h : FirstBad bs b m) (h' : FirstBad bs d n) : m ≤ n := by
  by_contra hlt
  exact h'.stops (h.begins.of_prefix (List.take_prefix_take_left (by omega)))

theorem FirstBad.unique (h : FirstBad bs b m) (h' : FirstBad bs d n) : b = d ∧ m = n := by
  obtain rfl := le_antisymm (h.le h') (h'.le h)
  exact ⟨Option.some.inj (h.byte.symm.trans h'.byte), rfl⟩

end

theorem IsStuck.begins {good : List Char} (h : IsStuck good c) : Begins (utf8 good) := by
  cases h with
  | significand sign s =>
    have hnumber := Denotes.number ⟨sign, s, none, nofun⟩
    rw [Number.text, Option.elim_none, List.append_nil] at hnumber
    exact ⟨_, _, hnumber, List.prefix_refl _⟩
  | @exponent sign s letter inner digits _ hs hletter hdigits =>
    have hzero : Digits (digits ++ ['0']) := hdigits.append (by decide)
    refine ⟨_, _, .number ⟨sign, s, some ⟨letter, inner, digits ++ ['0'], hletter, hzero, by simp⟩,
      fun _ => hs⟩, utf8 ['0'], ?_⟩
    simp [utf8, Number.text, Exponent.text]

theorem IsCut.begins (h : IsCut cs) : Begins (utf8 cs) := by
  obtain ⟨sign, s, inner, hs, hletter⟩ := h
  refine ⟨_, _, .number ⟨sign, s, some ⟨_, inner, ['0'], hletter, by decide, by simp⟩, fun _ => hs⟩,
    utf8 ['0'], ?_⟩
  simp [utf8, Number.text, Exponent.text]

/-- No text of the grammar goes on from there. -/
theorem IsStuck.not_denotes {good : List Char} (h : IsStuck good c) (rest : List Char)
    (v : DecimalValue) : ¬ Denotes (good ++ c :: rest) v := by
  intro hdenotes
  have htrim := trim_visible hdenotes.visible
  have hok : parse (good ++ c :: rest) = .ok v := parse_denotes (by rwa [htrim])
  rw [parse_stuck h rest htrim] at hok
  cases hok

theorem IsStuck.firstBad {good : List Char} (h : IsStuck good c) (rest : List Char) :
    ∃ b, leadByte c = Char.ofNat b.toNat ∧ FirstBad (utf8 (good ++ c :: rest)) b good.length := by
  obtain ⟨b, more, hencode, hlead, hascii⟩ := utf8EncodeChar_eq c
  have hbytes : utf8 (good ++ c :: rest) = utf8 good ++ b :: (more ++ utf8 rest) := by
    rw [utf8, List.flatMap_append, List.flatMap_cons, hencode]
    rfl
  refine ⟨b, hlead, ?_, ?_, ?_⟩
  · rw [hbytes, ← length_utf8 h.visible, List.getElem?_append_right (le_refl _), Nat.sub_self]
    rfl
  · rw [hbytes, ← length_utf8 h.visible, List.take_left]
    exact h.begins
  · have htake : (utf8 good ++ b :: (more ++ utf8 rest)).take (good.length + 1) =
        utf8 good ++ [b] := by
      rw [← length_utf8 h.visible, List.take_length_add_append]
      rfl
    rw [hbytes, htake]
    rintro ⟨cs, v, hcs, hprefix⟩
    -- The byte is an ASCII character of the text, and so it is the whole of the stuck one.
    have hchars := hprefix.map fun b => Char.ofNat b.toNat
    rw [List.map_append, map_utf8 h.visible, map_utf8 hcs.visible] at hchars
    obtain ⟨left, rfl⟩ := hchars
    have hvisible : IsVisible (Char.ofNat b.toNat) := hcs.visible _ (by simp)
    have hsmall : b.toNat < 128 := by
      have hlow := hvisible.2
      rw [Bytes.toNat_ofNat_toNat] at hlow
      omega
    rw [List.map_singleton, ← hascii hsmall, List.append_assoc] at hcs
    exact h.not_denotes left v hcs

/-! ### The whole parser -/

def StartsWord (cs : List Char) : Prop :=
  ∃ (sign : Sign) (word : List Char), cs = sign.text ++ word ∧ IsWord word

/-- What there is to say of a text: what it stands for, which word stands in it for nothing, that the
digits of its exponent are missing, or where it leaves the grammar. -/
inductive Verdict (cs : List Char) : Except DecimalError DecimalValue → Prop
  | value {v : DecimalValue} (h : Denotes cs v) : Verdict cs (.ok v)
  | unknown (sign : Sign) {word : List Char} (hcs : cs = sign.text ++ word) (hword : IsWord word)
    (hspecial : ¬ IsSpecial word) : Verdict cs (.error (.unknownSpecial (String.ofList word)))
  | cut (h : IsCut cs) : Verdict cs (.error .emptyExponent)
  | unexpected {b : UInt8} {offset : ℕ} (hword : ¬ StartsWord cs) (h : FirstBad (utf8 cs) b offset) :
    Verdict cs (.error (.unexpected (Char.ofNat b.toNat) offset))

theorem IsStuck.not_startsWord {good : List Char} (h : IsStuck good c) {rest : List Char}
    (htext : Text.trim text = good ++ c :: rest) : ¬ StartsWord (Text.trim text) := by
  rintro ⟨sign, word, hcs, hword⟩
  have hparse := parse_stuck h rest htext
  rw [parse_eq_special hword hcs] at hparse
  rcases special_cases sign word with ⟨v, -, hspecial⟩ | ⟨-, hspecial⟩
  · cases hspecial.symm.trans hparse
  · cases hspecial.symm.trans hparse

theorem parse_firstBad {b : UInt8} {offset : ℕ} (hword : ¬ StartsWord (Text.trim text))
    (h : FirstBad (utf8 (Text.trim text)) b offset) :
    parse text = .error (.unexpected (Char.ofNat b.toNat) offset) := by
  generalize htext : Text.trim text = cs at hword h
  cases shape cs with
  | word sign hstart => exact absurd ⟨sign, _, rfl, hstart⟩ hword
  | number n => exact absurd ⟨_, _, .number n, List.prefix_refl _⟩ h.not_begins
  | cut hcut => exact absurd hcut.begins h.not_begins
  | stuck rest hstuck =>
    obtain ⟨d, hlead, hbad⟩ := hstuck.firstBad rest
    obtain ⟨rfl, rfl⟩ := h.unique hbad
    rw [parse_stuck hstuck rest htext, hlead]

theorem verdict_parse (text : List Char) : Verdict (Text.trim text) (parse text) := by
  generalize htext : Text.trim text = cs
  cases shape cs with
  | number n =>
    rw [parse_number n htext]
    exact .value (.number n)
  | cut hcut =>
    rw [parse_cut (by rwa [htext])]
    exact .cut hcut
  | stuck rest hstuck =>
    obtain ⟨b, hlead, hbad⟩ := hstuck.firstBad rest
    rw [parse_stuck hstuck rest htext, hlead]
    exact .unexpected (htext ▸ hstuck.not_startsWord htext) hbad
  | @word sign word hword =>
    rw [parse_eq_special hword htext]
    rcases special_cases sign word with ⟨v, hv, hspecial⟩ | ⟨hunknown, hspecial⟩
    · rw [hspecial]
      exact .value hv
    · rw [hspecial]
      exact .unknown sign rfl hword hunknown

/-- The parser takes the grammar and nothing else. What it reports of any other text is true of it, and
what is true of it is reported. -/
theorem parse_eq_iff_verdict (text : List Char) (result : Except DecimalError DecimalValue) :
    parse text = result ↔ Verdict (Text.trim text) result := by
  constructor
  · rintro rfl
    exact verdict_parse text
  · intro h
    cases h with
    | value hvalue => exact parse_denotes hvalue
    | unknown sign hcs hword hspecial => rw [parse_eq_special hword hcs, special_unknown hspecial]
    | cut hcut => exact parse_cut hcut
    | unexpected hword hbad => exact parse_firstBad hword hbad

-- The second point is the first byte out of place, and so is the first byte of a letter that is no
-- ASCII one.
example : parse "1.2.3".toList = .error (.unexpected '.' 3) := by decide

example : parse " -.5\u00e9e".toList = .error (.unexpected '\u00c3' 3) := by decide

end DataTransfer.Decimal
