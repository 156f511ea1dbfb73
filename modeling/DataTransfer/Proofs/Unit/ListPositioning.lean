import DataTransfer.Proofs.Unit.RecordsAhead

/-!
Where a list-directed READ finds its next value. It passes over blanks and over records in which nothing
else is left, and stops at the first character that is no blank or, behind the last record, with a
condition. The rounds that its loops are given are enough: more of them change nothing.
-/

namespace DataTransfer.Session

variable {content : Bytes} {margin : ℕ} {s t : Session}

theorem skipBlanksIn_of_stop {ch : Option Char} (hnext : nextChar s = .ok ch t)
    (hch : ∀ c ∈ ch, ¬ Field.IsBlank c) {n fuel : ℕ} (hfuel : n < fuel) :
    Field.skipBlanksIn fuel s = .ok () t := by
  obtain ⟨m, rfl⟩ := Nat.exists_eq_add_of_lt hfuel
  change (nextChar >>= _ : Act Session Unit) s = _
  rw [bind_run_eq hnext]
  cases ch with
  | none => rfl
  | some c =>
    have hc : ¬ (c = ' ' || c = '\t') = true := by simpa [Field.IsBlank] using hch c rfl
    dsimp only
    rw [if_neg hc]
    rfl

theorem skipBlanksIn_of_blank {c : Char} {u v : Session} {moved : Bool}
    (hnext : nextChar s = .ok (some c) t) (hc : Field.IsBlank c)
    (hmove : moveRelative 1 t = .ok moved u) {n : ℕ}
    (hrest : ∀ fuel, n < fuel → Field.skipBlanksIn fuel u = .ok () v) {fuel : ℕ} (hfuel : n + 1 < fuel) :
    Field.skipBlanksIn fuel s = .ok () v := by
  obtain ⟨m, rfl⟩ := Nat.exists_eq_add_one_of_ne_zero (Nat.ne_of_gt (Nat.zero_lt_of_lt hfuel))
  have hc : (c = ' ' || c = '\t') = true := by simpa [Field.IsBlank] using hc
  have hmoved : (discard (moveRelative 1) : Act Session Unit) t = .ok () u := bind_run_eq hmove
  change (nextChar >>= _ : Act Session Unit) s = _
  rw [bind_run_eq hnext]
  dsimp only
  rw [if_pos hc]
  exact (bind_run_eq hmoved).trans (hrest m (Nat.lt_of_succ_lt_succ hfuel))

def pastBlanks : List (List Char) → List (List Char)
  | [] => []
  | cs :: later => (cs.dropWhile fun c => Field.IsBlank c) :: later

theorem exists_blanks {texts later : List (List Char)} {cs : List Char}
    (h : pastBlanks texts = cs :: later) : ∃ blanks, texts = (blanks ++ cs) :: later ∧
      (∀ b ∈ blanks, Field.IsBlank b) ∧ ∀ c ∈ cs.head?, ¬ Field.IsBlank c := by
  cases texts with
  | nil => cases h
  | cons text later =>
    obtain ⟨rfl, rfl⟩ := List.cons.inj h
    refine ⟨text.takeWhile fun c => Field.IsBlank c, by rw [List.takeWhile_append_dropWhile], ?_, ?_⟩
    · exact fun b hb => of_decide_eq_true (List.mem_takeWhile_imp (p := fun c => decide (Field.IsBlank c)) hb)
    · intro c hc
      have hstop := List.head?_dropWhile_not (fun c => decide (Field.IsBlank c)) text
      rw [Option.mem_def.mp hc] at hstop
      simpa using hstop

theorem blank_of_pastBlanks {texts : List (List Char)}
    (h : pastBlanks texts = [] ∨ pastBlanks texts = [[]]) :
    ∀ record ∈ texts, ∀ b ∈ record, Field.IsBlank b := by
  rcases h with hnil | hnil
  · cases texts with
    | nil => exact nofun
    | cons => cases hnil
  · obtain ⟨blanks, rfl, hblanks, -⟩ := exists_blanks hnil
    simpa using hblanks

/-- The cursor has come behind the blanks of its record. A cursor that is left of the left tab limit may
have passed other characters too. -/
structure BehindBlanks (content : Bytes) (margin : ℕ) (s t : Session) : Prop where
  listing : Listing content margin t
  length_eq : (t.textsAhead content).length = (s.textsAhead content).length
  stops : ∀ c ∈ (t.textsAhead content).head?.bind List.head?, ¬ Field.IsBlank c
  passes : margin = 0 → t.textsAhead content = pastBlanks (s.textsAhead content)
  noted : t.handler = s.handler ∨ t.handler.status ≠ .ok ∧
    (margin = 0 → t.textsAhead content = [] ∨ t.textsAhead content = [[]])

theorem pastBlanks_of_stops {texts : List (List Char)}
    (h : ∀ c ∈ texts.head?.bind List.head?, ¬ Field.IsBlank c) : pastBlanks texts = texts := by
  match texts, h with
  | [], _ => rfl
  | [] :: _, _ => rfl
  | (c :: cs) :: later, h =>
    exact congrArg (· :: later) (List.dropWhile_cons_of_neg (by simpa using h c rfl))

namespace Listing

theorem behindBlanks_of_stops (ht : Listing content margin t)
    (hsame : t.textsAhead content = s.textsAhead content)
    (hstops : ∀ c ∈ (s.textsAhead content).head?.bind List.head?, ¬ Field.IsBlank c)
    (hnoted : t.handler = s.handler ∨ t.handler.status ≠ .ok ∧
      (s.textsAhead content = [] ∨ s.textsAhead content = [[]])) : BehindBlanks content margin s t where
  listing := ht
  length_eq := congrArg List.length hsame
  stops := hsame ▸ hstops
  passes _ := hsame.trans (pastBlanks_of_stops hstops).symm
  noted := hnoted.imp_right (And.imp_right fun hnil _ => hsame ▸ hnil)

/-- However many rounds more than there are characters left it is given, the loop over blanks ends behind
them. -/
theorem skipBlanksIn_run (h : Listing content margin s) (hsize : content.length < FileSystem.offsetLimit) :
    ∃ t, (∀ fuel, ((s.textsAhead content).headD []).length < fuel →
        Field.skipBlanksIn fuel s = .ok () t) ∧ BehindBlanks content margin s t := by
  -- By induction over how much is left of the record: a blank that is passed takes a round.
  generalize hcount : ((s.textsAhead content).headD []).length = count
  induction count using Nat.strong_induction_on generalizing s with
  | _ count ih =>
    obtain ⟨ch, t, hnext, rfl, ht, hsame, hlooked⟩ := (h.nextChar_completes hsize).exists_run
    by_cases hstops : ∀ c ∈ (s.textsAhead content).head?.bind List.head?, ¬ Field.IsBlank c
    · exact ⟨t, fun _ => skipBlanksIn_of_stop hnext hstops,
        ht.behindBlanks_of_stops hsame hstops (hlooked.imp_left And.left)⟩
    · obtain ⟨c, cs, later, hahead, hc⟩ : ∃ c cs later, s.textsAhead content = (c :: cs) :: later ∧
          Field.IsBlank c := by
        match s.textsAhead content, hstops with
        | [], hstops => exact absurd nofun hstops
        | [] :: _, hstops => exact absurd nofun hstops
        | (c :: cs) :: later, hstops =>
          exact ⟨c, cs, later, rfl, by_contra fun hc => hstops fun d hd => Option.some.inj hd ▸ hc⟩
      rw [hahead] at hnext hsame hlooked hcount
      have hkept : t.handler = s.handler := by
        rcases hlooked with ⟨hkept, -⟩ | ⟨-, hnil | hnil⟩
        · exact hkept
        · cases hnil
        · cases hnil
      obtain ⟨moved, u, hmove, hu, hpassed, left, hleft, hshorter, hstatus⟩ :=
        (ht.moveRelative_completes hsize hsame).exists_run
      obtain rfl : cs.length + 1 = count := hcount
      have hless : ((u.textsAhead content).headD []).length < cs.length + 1 := by
        rw [hleft]
        exact Nat.lt_succ_of_le hshorter
      obtain ⟨v, hrun, hv⟩ := ih _ hless hu rfl
      refine ⟨v, fun _ => skipBlanksIn_of_blank hnext hc hmove fun fuel hfuel =>
        hrun fuel ((Nat.le_of_lt_succ hless).trans_lt hfuel), hv.listing, ?_, hv.stops, fun hmargin => ?_, ?_⟩
      · rw [hv.length_eq, hleft, hahead]
        rfl
      · rw [hv.passes hmargin, (hpassed hmargin).1, hahead]
        exact congrArg (· :: later) (List.dropWhile_cons_of_pos (by simpa using hc)).symm
      · rcases hv.noted with hsame | hnoted
        · rcases hstatus with ⟨-, hkept'⟩ | ⟨-, hstatus⟩
          · exact .inl (hsame.trans (hkept'.trans hkept))
          · by_cases hmargin : margin = 0
            · exact .inl (hsame.trans ((hpassed hmargin).2.trans hkept))
            · exact .inr ⟨hsame ▸ hstatus, fun hzero => absurd hzero hmargin⟩
        · exact .inr hnoted

theorem length_textsAhead_le (h : Listing content margin s) : (s.textsAhead content).length ≤ s.reach := by
  have hrecords : (s.recordsAhead content).length ≤ content.length := by
    have hle := Form.length_recordsIn_le { recordLength := s.unit.connection.fixedRecordLength }
      (content.drop s.unit.offset)
    rw [List.length_drop] at hle
    unfold recordsAhead
    dsimp only at hle ⊢
    split
    · omega
    · rw [List.length_take]
      omega
  have hreach := length_le_reach h.shows
  unfold textsAhead
  split
  · exact Nat.zero_le _
  · next text later heq =>
    rw [heq, List.length_cons] at hrecords
    rw [List.length_cons, List.length_map]
    omega

theorem length_head_textsAhead_le (h : Listing content margin s) :
    ((s.textsAhead content).headD []).length ≤ s.reach := by
  have hreach := length_le_reach h.shows
  unfold textsAhead
  split
  · exact Nat.zero_le _
  · next text later heq =>
    obtain ⟨after, hfirst⟩ := firstRecord_of_recordsAhead heq
    have htext := hfirst.text_prefix.length_le
    rw [List.length_drop] at htext
    rw [List.headD_cons, Bytes.length_chars, List.length_drop]
    omega

theorem skipBlanks_run (h : Listing content margin s) (hsize : content.length < FileSystem.offsetLimit) :
    ∃ t, Field.skipBlanks s = .ok () t ∧ BehindBlanks content margin s t := by
  obtain ⟨t, hrun, ht⟩ := h.skipBlanksIn_run hsize
  exact ⟨t, hrun _ (Nat.lt_succ_of_le h.length_head_textsAhead_le), ht⟩

end Listing

theorem seekValueIn_of_stop {u : Session} {ch : Option Char} (hskip : Field.skipBlanks s = .ok () t)
    (hnext : nextChar t = .ok ch u) (hstop : ch ≠ none ∨ u.handler.status ≠ .ok) {n fuel : ℕ}
    (hfuel : n < fuel) : seekValueIn fuel s = .ok () u := by
  obtain ⟨m, rfl⟩ := Nat.exists_eq_add_of_lt hfuel
  have hleft : ¬ (ch.isNone && u.handler.status = .ok) = true := by
    rcases hstop with hch | hstatus
    · cases ch with
      | none => exact absurd rfl hch
      | some c => simp
    · simp [hstatus]
  refine (bind_run_eq hskip).trans ((bind_run_eq hnext).trans ?_)
  rw [get_bind_run, if_neg hleft]
  rfl

theorem seekValueIn_of_next {u v w : Session} (hskip : Field.skipBlanks s = .ok () t)
    (hnext : nextChar t = .ok none u) (hstatus : u.handler.status = .ok)
    (hadvance : advance u = .ok true v) {n : ℕ} (hrest : ∀ fuel, n < fuel → seekValueIn fuel v = .ok () w)
    {fuel : ℕ} (hfuel : n + 1 < fuel) : seekValueIn fuel s = .ok () w := by
  obtain ⟨m, rfl⟩ := Nat.exists_eq_add_one_of_ne_zero (Nat.ne_of_gt (Nat.zero_lt_of_lt hfuel))
  refine (bind_run_eq hskip).trans ((bind_run_eq hnext).trans ?_)
  rw [get_bind_run, if_pos (by simp [hstatus])]
  exact (bind_run_eq hadvance).trans (hrest m (Nat.lt_of_succ_lt_succ hfuel))

/-- A READ stands before a character that is no blank, or it has met a condition. -/
def AtValue (t : Session) : Prop :=
  t.handler.status ≠ .ok ∨
    ∃ c, ¬ Field.IsBlank c ∧ Completes nextChar t fun ch u => ch = some c ∧ u.handler = t.handler

/-- Where a READ with these texts before it has been led: to the first character that is no blank, or to a
condition. The records that it has passed are blank. -/
inductive Positioned (content : Bytes) (texts : List (List Char)) (h : Handler) (t : Session) : Prop
  | value {passed later : List (List Char)} {blanks cs : List Char} {c : Char}
    (texts_eq : texts = passed ++ (blanks ++ c :: cs) :: later)
    (passed_blank : ∀ record ∈ passed, ∀ b ∈ record, Field.IsBlank b)
    (blanks_blank : ∀ b ∈ blanks, Field.IsBlank b) (not_blank : ¬ Field.IsBlank c)
    (ahead_eq : t.textsAhead content = (c :: cs) :: later) (handler_eq : t.handler = h)
  | condition {passed left : List (List Char)} (texts_eq : texts = passed ++ left)
    (passed_blank : ∀ record ∈ passed, ∀ b ∈ record, Field.IsBlank b)
    (ahead_eq : t.textsAhead content = pastBlanks left) (status_ne : t.handler.status ≠ .ok)
    -- A statement that had met no condition before meets one only where nothing but blanks is left.
    (left_blank : h.status = .ok → ∀ record ∈ left, ∀ b ∈ record, Field.IsBlank b)

theorem Positioned.cons {texts : List (List Char)} {h : Handler} {cs : List Char}
    (ht : Positioned content texts h t) (hcs : ∀ b ∈ cs, Field.IsBlank b) :
    Positioned content (cs :: texts) h t := by
  cases ht with
  | value htexts hpassed hblanks hc hahead hhandler =>
    exact .value (congrArg (cs :: ·) htexts) (List.forall_mem_cons.mpr ⟨hcs, hpassed⟩) hblanks hc
      hahead hhandler
  | condition htexts hpassed hahead hstatus hleft =>
    exact .condition (congrArg (cs :: ·) htexts) (List.forall_mem_cons.mpr ⟨hcs, hpassed⟩) hahead
      hstatus hleft

/-- Where there are only blanks, it does not matter whether a condition was noted before. -/
theorem Positioned.of_blank {texts : List (List Char)} {h : Handler}
    (ht : Positioned content texts h t) (hblank : ∀ record ∈ texts, ∀ b ∈ record, Field.IsBlank b)
    (h' : Handler) : Positioned content texts h' t := by
  cases ht with
  | @value _ _ blanks cs c htexts _ _ hc =>
    have hrecord : blanks ++ c :: cs ∈ texts := by
      rw [htexts]
      exact List.mem_append_right _ List.mem_cons_self
    exact absurd (hblank _ hrecord c (List.mem_append_right _ List.mem_cons_self)) hc
  | condition htexts hpassed hahead hstatus _ =>
    exact .condition htexts hpassed hahead hstatus
      fun _ record hrecord => hblank record (htexts ▸ List.mem_append_right _ hrecord)

namespace Listing

theorem mono {margin' : ℕ} (h : Listing content margin s) (hle : margin ≤ margin') :
    Listing content margin' s :=
  { h with tabFloor_le := h.tabFloor_le.trans (Nat.add_le_add_left hle _) }

theorem look_run (h : Listing content margin s) (hsize : content.length < FileSystem.offsetLimit) :
    ∃ t u, Field.skipBlanks s = .ok () t ∧
      nextChar t = .ok ((u.textsAhead content).head?.bind List.head?) u ∧ BehindBlanks content margin s u ∧
      (u.handler.status = .ok → u.textsAhead content ≠ [] ∧ u.unit.located = true) := by
  obtain ⟨t, hskip, ht⟩ := h.skipBlanks_run hsize
  obtain ⟨ch, u, hnext, rfl, hu, hsame, hmet⟩ := (ht.listing.nextChar_completes hsize).exists_run
  rw [← hsame] at hnext hmet
  refine ⟨t, u, hskip, hnext, ⟨hu, hsame ▸ ht.length_eq, hsame ▸ ht.stops, fun hmargin =>
    hsame.trans (ht.passes hmargin), ?_⟩, fun hok => ?_⟩
  · rcases hmet with ⟨hkept, -⟩ | ⟨hstatus, hnil⟩
    · rw [hkept, hsame]
      exact ht.noted
    · exact .inr ⟨hstatus, fun _ => hnil⟩
  · rcases hmet with ⟨-, hlocated⟩ | ⟨hstatus, -⟩
    · exact hlocated
    · exact absurd hok hstatus

end Listing

namespace BehindBlanks

variable (h : BehindBlanks content margin s t)
include h

/-- In front of a character nothing has been noted, unless other characters than blanks were passed. -/
theorem handler_eq {c : Char} {cs : List Char} {later : List (List Char)}
    (hahead : t.textsAhead content = (c :: cs) :: later) (hmargin : margin = 0) :
    t.handler = s.handler := by
  rcases h.noted with hkept | ⟨-, hnil⟩
  · exact hkept
  · rw [hahead] at hnil
    rcases hnil hmargin with hnil | hnil <;> cases hnil

theorem at_value (hsize : content.length < FileSystem.offsetLimit) {c : Char} {cs : List Char}
    {later : List (List Char)} (hahead : t.textsAhead content = (c :: cs) :: later) :
    t.AtValue ∧ (margin = 0 → Positioned content (s.textsAhead content) s.handler t) := by
  have hc : ¬ Field.IsBlank c := h.stops c (by rw [hahead]; rfl)
  refine ⟨.inr ⟨c, hc, (h.listing.nextChar_completes hsize).mono ?_ fun _ _ => id⟩, fun hmargin => ?_⟩
  · rintro ch u ⟨rfl, -, -, hlooked⟩
    rw [hahead] at hlooked
    refine ⟨by rw [hahead]; rfl, ?_⟩
    rcases hlooked with ⟨hkept, -⟩ | ⟨-, hnil | hnil⟩
    · exact hkept
    · cases hnil
    · cases hnil
  · obtain ⟨blanks, htexts, hblanks, -⟩ := exists_blanks ((h.passes hmargin).symm.trans hahead)
    exact .value (htexts.trans (List.nil_append _).symm) nofun hblanks hc hahead (h.handler_eq hahead hmargin)

theorem at_condition (hstatus : t.handler.status ≠ .ok) :
    t.AtValue ∧ (margin = 0 → Positioned content (s.textsAhead content) s.handler t) := by
  refine ⟨.inl hstatus, fun hmargin => .condition (List.nil_append _).symm nofun (h.passes hmargin) hstatus
    fun hok => blank_of_pastBlanks ?_⟩
  rw [← h.passes hmargin]
  exact (h.noted.resolve_left fun hkept => hstatus (hkept ▸ hok)).2 hmargin

end BehindBlanks

namespace Listing

/-- However many rounds more than there are records it is given, the loop over records ends at a value or
with a condition. Unless the cursor was left of the left tab limit, it has passed nothing but blanks. -/
theorem seekValueIn_run (h : Listing content margin s) (hsize : content.length < FileSystem.offsetLimit) :
    ∃ t, (∀ fuel, (s.textsAhead content).length < fuel → seekValueIn fuel s = .ok () t) ∧
      Listing content margin t ∧ t.AtValue ∧
      (margin = 0 → Positioned content (s.textsAhead content) s.handler t) := by
  -- By induction over the records that are ahead: one that is passed takes a round.
  generalize hcount : (s.textsAhead content).length = count
  induction count using Nat.strong_induction_on generalizing s margin with
  | _ count ih =>
    obtain ⟨t, u, hskip, hnext, hu, hlocated⟩ := h.look_run hsize
    by_cases hstatus : u.handler.status = .ok
    · match hahead : u.textsAhead content with
      | [] => exact absurd hahead (hlocated hstatus).1
      | (c :: cs) :: later =>
        rw [hahead] at hnext
        exact ⟨u, fun _ => seekValueIn_of_stop hskip hnext (.inl nofun), hu.listing, hu.at_value hsize hahead⟩
      -- Only this record is exhausted, and the loop goes on with the next one.
      | [] :: later =>
        rw [hahead] at hnext
        obtain ⟨_, v, hadvance, rfl, hv, hlater, hkept⟩ :=
          (hu.listing.advance_completes hahead (hlocated hstatus).2 hstatus).exists_run
        have hless : (v.textsAhead content).length < count := by
          have hlength := hu.length_eq
          rw [hahead, List.length_cons] at hlength
          rw [hlater]
          omega
        obtain ⟨w, hrun, hw, hvalue, hpositioned⟩ := ih _ hless hv rfl
        refine ⟨w, fun _ hfuel => seekValueIn_of_next hskip hnext hstatus hadvance hrun (by omega),
          hw.mono (Nat.zero_le _), hvalue, fun hmargin => ?_⟩
        obtain ⟨blanks, htexts, hblanks, -⟩ := exists_blanks ((hu.passes hmargin).symm.trans hahead)
        have hhandler : v.handler = s.handler :=
          hkept.trans (hu.noted.resolve_right fun hnoted => hnoted.1 hstatus)
        rw [htexts, List.append_nil, ← hlater, ← hhandler]
        exact (hpositioned rfl).cons hblanks
    · exact ⟨u, fun _ => seekValueIn_of_stop hskip hnext (.inr hstatus), hu.listing, hu.at_condition hstatus⟩

end Listing

/-- Searches agree where they agree with a larger window, if this one does not reach the end. -/
theorem locateFormattedIn_congr (hshows : s.channel.Shows content)
    (hsize : content.length < FileSystem.offsetLimit) {window m n : ℕ}
    (hmore : window ≤ content.length - s.unit.offset → ∀ w, (s.withWindow w).channel.Shows content →
      (locateFormattedIn m (2 * window)).run (s.withWindow w) =
        (locateFormattedIn n (2 * window)).run (s.withWindow w)) :
    (locateFormattedIn (m + 1) window).run s = (locateFormattedIn (n + 1) window).run s := by
  have hread := windowed_read_attempts hshows hsize s.unit.offset window
  simp only [locateFormattedIn]
  rw [attempt_get_bind_run, attempt_get_bind_run]
  refine attempt_bind_congr fun got t hrun => ?_
  obtain ⟨w, rfl, hw, hgot, -⟩ := Ends.of_run hread hrun
  split_ifs
  · rfl
  rw [attempt_get_bind_run, attempt_get_bind_run]
  split
  · rfl
  · rfl
  · next hsmall => exact hmore (by simp at hsmall; omega) w hw

/-- The search for a newline needs no more rounds than it takes for the window to reach the end of the
file. -/
theorem locateFormattedIn_enough (hshows : s.channel.Shows content)
    (hsize : content.length < FileSystem.offsetLimit) {window m n : ℕ} (hwindow : 0 < window)
    (hm : content.length - s.unit.offset < window * 2 ^ m)
    (hn : content.length - s.unit.offset < window * 2 ^ n) :
    (locateFormattedIn (m + 1) window).run s = (locateFormattedIn (n + 1) window).run s := by
  induction m generalizing s window n with
  | zero => exact locateFormattedIn_congr hshows hsize fun hle => by omega
  | succ m ih =>
    refine locateFormattedIn_congr hshows hsize fun hle w hw => ?_
    cases n with
    | zero => omega
    | succ n =>
      have hdouble (k : ℕ) : 2 * window * 2 ^ k = window * 2 ^ (k + 1) := by
        rw [Nat.pow_succ, Nat.mul_comm (2 ^ k), ← Nat.mul_assoc, Nat.mul_comm window]
      exact ih hw (by omega) (by rw [hdouble]; exact hm) (by rw [hdouble]; exact hn)

namespace Listing

/-- However many rounds more than the READ can still reach bytes it is given, the search for a newline ends
alike, and finds a record unless the file has no more bytes. -/
theorem locateFormattedIn_run (h : Listing content margin s) (hsize : content.length < FileSystem.offsetLimit)
    (hlines : s.unit.connection.fixedLength = false) {window : ℕ} (hwindow : 0 < window) :
    ∃ answer t, (∀ fuel, s.reach < fuel → (locateFormattedIn fuel window).run s = .ok answer t) ∧
      (answer = .ok true ↔ content.drop s.unit.offset ≠ []) := by
  obtain ⟨answer, t, hrun, ht⟩ := Completes.exists_run
    (h.locateFormattedIn_attempts hsize hlines hwindow (h.lt_of_reach le_rfl hwindow))
  refine ⟨answer, t, fun fuel hfuel => ?_, ?_⟩
  · obtain ⟨n, rfl⟩ := Nat.exists_eq_add_one_of_ne_zero (Nat.ne_of_gt (Nat.zero_lt_of_lt hfuel))
    rw [← hrun]
    exact locateFormattedIn_enough h.shows hsize hwindow
      (h.lt_of_reach (Nat.le_of_lt_succ hfuel) hwindow) (h.lt_of_reach le_rfl hwindow)
  · rcases answer with f | _ | _
    · simp [ht.2.2]
    · simp [ht.2.2.2 rfl]
    · simpa using (ht.2.2.1 rfl).1

end Listing

/-- What is before the READ once the separator behind the last value is passed. -/
def behindSeparator (separator : Char) (texts : List (List Char)) : List (List Char) :=
  match pastBlanks texts with
  | (c :: cs) :: later => if c = separator then cs :: later else (c :: cs) :: later
  | left => left

/-- What is before the READ of an item: behind an item that it has read it passes the separator. -/
def itemsAhead (content : Bytes) (modes : Modes) (s : Session) : List (List Char) :=
  if 0 < s.items then behindSeparator (Field.listComma modes) (s.textsAhead content)
  else s.textsAhead content

namespace Listing

theorem separator_run (h : Listing content margin s) (hsize : content.length < FileSystem.offsetLimit)
    (separator : Char) (next : Act Session Unit) : ∃ t, (do
        Field.skipBlanks
        if (← nextChar) = some separator then discard (moveRelative 1)
        next : Act Session Unit) s = next t ∧
      Listing content margin t ∧ (margin = 0 →
        t.textsAhead content = behindSeparator separator (s.textsAhead content) ∧
        (t.handler = s.handler ∨
          ∀ record ∈ behindSeparator separator (s.textsAhead content), ∀ b ∈ record, Field.IsBlank b)) := by
  obtain ⟨t, u, hskip, hnext, hu, -⟩ := h.look_run hsize
  by_cases hseparator : (u.textsAhead content).head?.bind List.head? = some separator
  · obtain ⟨cs, later, hahead⟩ : ∃ cs later, u.textsAhead content = (separator :: cs) :: later := by
      match u.textsAhead content, hseparator with
      | (c :: cs) :: later, heq => exact ⟨cs, later, by rw [Option.some.inj heq]⟩
    obtain ⟨_, v, hmove, hv, hpassed, -⟩ := (hu.listing.moveRelative_completes hsize hahead).exists_run
    have hmoved : (discard (moveRelative 1) : Act Session Unit) u = .ok () v := bind_run_eq hmove
    refine ⟨v, (bind_run_eq hskip).trans ((bind_run_eq hnext).trans ?_), hv, fun hmargin => ?_⟩
    · rw [if_pos hseparator]
      exact bind_run_eq hmoved
    · obtain ⟨hleft, hkept⟩ := hpassed hmargin
      rw [behindSeparator, ← hu.passes hmargin, hahead]
      exact ⟨hleft.trans (if_pos rfl).symm, .inl (hkept.trans (hu.handler_eq hahead hmargin))⟩
  · refine ⟨u, (bind_run_eq hskip).trans ((bind_run_eq hnext).trans ?_), hu.listing, fun hmargin => ?_⟩
    · rw [if_neg hseparator]
    · have hsame : behindSeparator separator (s.textsAhead content) = u.textsAhead content := by
        rw [behindSeparator, ← hu.passes hmargin]
        match u.textsAhead content, hseparator with
        | [], _ => rfl
        | [] :: _, _ => rfl
        | (c :: cs) :: later, hne => exact if_neg fun hc => hne (congrArg some hc)
      rw [hsame]
      refine ⟨rfl, hu.noted.imp_right fun hnoted => ?_⟩
      rcases hnoted.2 hmargin with hnil | hnil <;> simp [hnil]

theorem beginListItem_run (h : Listing content margin s) (hsize : content.length < FileSystem.offsetLimit)
    (modes : Modes) : ∃ t, beginListItem modes s = .ok () t ∧ Listing content margin t ∧ t.AtValue ∧
      (margin = 0 → Positioned content (s.itemsAhead content modes) s.handler t) := by
  have hseek {u : Session} (hu : Listing content margin u) : ∃ t,
      seekValueIn (u.reach + 2) u = .ok () t ∧ Listing content margin t ∧ t.AtValue ∧
        (margin = 0 → Positioned content (u.textsAhead content) u.handler t) := by
    obtain ⟨t, hrun, ht⟩ := hu.seekValueIn_run hsize
    exact ⟨t, hrun _ (Nat.lt_add_right 1 (Nat.lt_succ_of_le hu.length_textsAhead_le)), ht⟩
  unfold itemsAhead
  by_cases hitems : 0 < s.items
  · obtain ⟨u, hseparator, hu, hpassed⟩ :=
      h.separator_run hsize (Field.listComma modes) (do seekValueIn ((← get).reach + 2))
    obtain ⟨t, hrun, ht, hvalue, hpositioned⟩ := hseek hu
    rw [if_pos hitems]
    refine ⟨t, ?_, ht, hvalue, fun hmargin => ?_⟩
    · rw [beginListItem, get_bind_run, if_pos hitems]
      exact hseparator.trans hrun
    · obtain ⟨hahead, hhandler⟩ := hpassed hmargin
      rw [← hahead] at hhandler ⊢
      rcases hhandler with hhandler | hblank
      · rw [← hhandler]
        exact hpositioned hmargin
      · exact (hpositioned hmargin).of_blank hblank s.handler
  · obtain ⟨t, hrun, ht⟩ := hseek h
    rw [if_neg hitems]
    refine ⟨t, ?_, ht⟩
    rw [beginListItem, get_bind_run, if_neg hitems]
    exact hrun

end Listing

/-- The positioning of a list-directed READ ends, wherever its cursor is. However many more rounds its loops
could take, the search for a newline ends with a record unless the file has no more bytes, and the loop over
records ends before a character that is no blank or with a condition; so an item begins there, behind the
separator of the item before. Unless the cursor was left of the left tab limit, nothing but blanks was
passed. -/
theorem list_positioning_ends (h : Listing content margin s)
    (hsize : content.length < FileSystem.offsetLimit) :
    (s.unit.connection.fixedLength = false → ∀ window, 0 < window →
      ∃ answer t, (∀ fuel, s.reach < fuel → (locateFormattedIn fuel window).run s = .ok answer t) ∧
        (answer = .ok true ↔ content.drop s.unit.offset ≠ [])) ∧
    (∃ t, (∀ fuel, (s.textsAhead content).length < fuel → seekValueIn fuel s = .ok () t) ∧
      Listing content margin t ∧ t.AtValue ∧
      (margin = 0 → Positioned content (s.textsAhead content) s.handler t)) ∧
    ∀ modes, ∃ t, beginListItem modes s = .ok () t ∧ Listing content margin t ∧ t.AtValue ∧
      (margin = 0 → Positioned content (s.itemsAhead content modes) s.handler t) :=
  ⟨fun hlines _ => h.locateFormattedIn_run hsize hlines, h.seekValueIn_run hsize,
    h.beginListItem_run hsize⟩

def beforeSeven : Session :=
  { system := { files := { nodes := [{ content := [32, 10, 10, 32, 55, 10] }], names := [(["a"], 0)] } }
    unit := { ExternalUnit.new 10 1 with
              attachment := .ofFile "a" 0, reading := true, statement := .listDirected .input {} }
    handler := { declared := { iostat := true } } }

theorem beforeSeven_listing : Listing [32, 10, 10, 32, 55, 10] 0 beforeSeven where
  shows := ⟨rfl, ⟨0, true, rfl, rfl⟩, rfl, rfl⟩
  formatted := rfl
  declared := nofun
  readChunk_pos := Nat.one_pos
  reading_eq := rfl
  tabFloor_le := le_rfl
  receives := rfl
  found := nofun

theorem list_positioning_ends_before_seven :
    Listing [32, 10, 10, 32, 55, 10] 0 beforeSeven ∧ 6 < FileSystem.offsetLimit ∧
      ∃ t, beginListItem {} beforeSeven = .ok () t ∧
        Positioned [32, 10, 10, 32, 55, 10] [[' '], [], [' ', '7']] beforeSeven.handler t := by
  have hsize : 6 < FileSystem.offsetLimit := by decide
  obtain ⟨-, -, hitems⟩ := list_positioning_ends beforeSeven_listing hsize
  obtain ⟨t, hrun, -, -, hpositioned⟩ := hitems {}
  have hahead : beforeSeven.itemsAhead [32, 10, 10, 32, 55, 10] {} = [[' '], [], [' ', '7']] := by
    decide
  rw [hahead] at hpositioned
  exact ⟨beforeSeven_listing, hsize, t, hrun, hpositioned rfl⟩

/-- A formatted WRITE of `ab cd` that does not advance, and a READ that moves to three columns left of the
left tab limit. -/
def readBack : Act Session Unit := do
  begin_ (.formatted .output) {}
  setNonAdvancing true
  discard (emit [97, 98, 32, 99, 100])
  discard finish
  begin_ (.formatted .input) {}
  setNonAdvancing true
  discard (moveAbsolute (-3))
  discard finish

/-- From the blank before `cd` a list-directed READ is led to the limit and on to the end of the file: an
absolute move goes to the left of the limit, and the next relative move does not. -/
theorem value_left_of_limit_skipped :
    let start : Session :=
      { system := { files := { nodes := [{}], names := [(["a"], 0)] } }
        unit := { ExternalUnit.new 10 256 with attachment := .ofFile "a" 0 } }
    ∃ s, (do
        readBack
        begin_ (.listDirected .input) {}
        declare { iostat := true }) start = .ok ⟨⟩ s ∧
      s.textsAhead [97, 98, 32, 99, 100] = [[' ', 'c', 'd']] ∧
      s.unit.connection.position = 2 ∧ s.unit.connection.tabFloor = 5 ∧
      Completes (beginListItem {}) s fun _ t =>
        t.handler.status = .endOfFile ∧ t.unit.connection.atEnd = true :=
  ⟨_, rfl, by decide, rfl, rfl, by decide +kernel⟩

end DataTransfer.Session
