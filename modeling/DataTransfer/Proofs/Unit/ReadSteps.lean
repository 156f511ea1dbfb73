import DataTransfer.Proofs.Unit.Clean

/-!
The steps of a READ, one rule for each: it looks for its record, looks at the character at its cursor,
moves the cursor, and goes on to the record that follows. What a step comes to is told by what the steps
within it come to, so that nothing is said here of where the bytes of a record are.
-/

namespace DataTransfer.Session

variable {s : Session}

/-! ### The search for a record -/

section

variable {P : Bool → Session → Prop} {R : Fault → Session → Prop}

theorem findRecord_of_fixed {length : ℕ} (hlength : s.unit.connection.fixedRecordLength = some length)
    (hread : Attempts (windowed (Windowed.read s.unit.offset length))
      { s with unit := { s.unit with terminator := 0 } } (fun got => P (decide (0 < got))) R) :
    Attempts findRecord s P R := by
  rw [findRecord]
  refine (attempts_get _).mpr ?_
  dsimp only
  rw [hlength]
  refine Attempts.bind (modifyUnit_succeeds _).attempts ?_
  rintro _ _ rfl
  exact Attempts.bind hread fun _ _ => id

theorem findRecord_of_line (hlines : s.unit.connection.fixedRecordLength = none)
    (hformatted : s.unit.connection.formatted = true) (hlocate : Attempts locateFormatted s P R) :
    Attempts findRecord s P R := by
  rw [findRecord]
  refine (attempts_get _).mpr ?_
  dsimp only
  rw [hlines]
  dsimp only
  rwa [if_pos hformatted]

theorem findRecord_of_stream (hlines : s.unit.connection.fixedRecordLength = none)
    (hformatted : s.unit.connection.formatted = false) (haccess : s.unit.connection.access = .stream)
    (hfound : P true { s with unit := s.unit.setConnection fun c => { c with recordLength := none } }) :
    Attempts findRecord s P R := by
  rw [findRecord]
  refine (attempts_get _).mpr ?_
  dsimp only
  rw [hlines]
  dsimp only
  rw [hformatted, if_neg Bool.false_ne_true, if_pos haccess]
  exact hfound

theorem findRecord_of_markers (hlines : s.unit.connection.fixedRecordLength = none)
    (hformatted : s.unit.connection.formatted = false) (haccess : s.unit.connection.access ≠ .stream)
    (hlocate : Attempts locateUnformatted s P R) : Attempts findRecord s P R := by
  rw [findRecord]
  refine (attempts_get _).mpr ?_
  dsimp only
  rw [hlines]
  dsimp only
  rwa [hformatted, if_neg Bool.false_ne_true, if_neg haccess]

def atLocated (s : Session) : Session := { s with unit := { s.unit with located := true } }

def atLastRecord (s : Session) : Session :=
  { s with unit := s.unit.setConnection fun c => { c with endRecord := some c.record } }

/-- The statement admits the end of the file, and `Q` holds when it is noted. -/
def NotesEnd (Q : Session → Prop) (s : Session) : Prop :=
  s.handler.declared.admits .endOfFile = true ∧ Q { s with handler := s.handler.record .endOfFile }

/-- A record that has been found is not looked for again, and neither is one behind the last. -/
theorem ensureLocated_attempts (hfound : s.unit.located = true → P true s)
    (hpassed : s.unit.located = false → s.unit.connection.atEnd = true → s.NotesEnd (P false))
    (hsearch : s.unit.located = false → s.unit.connection.atEnd = false →
      Attempts findRecord s
        (fun found t => if found then P true t.atLocated else t.atLastRecord.NotesEnd (P false)) R) :
    Attempts ensureLocated s P R := by
  have hnoting {t : Session} (ht : t.NotesEnd (P false)) :
      Attempts (do signalEndOfFile; return false) t P R := by
    refine Attempts.bind (signalEndOfFile_succeeds ht.1).attempts ?_
    rintro _ _ rfl
    exact ht.2
  rw [ensureLocated]
  refine (attempts_get _).mpr ?_
  cases hlocated : s.unit.located with
  | true => exact hfound hlocated
  | false =>
    rw [if_neg Bool.false_ne_true, locate]
    refine (attempts_get _).mpr ?_
    dsimp only
    cases hend : s.unit.connection.atEnd with
    | true => exact hnoting (hpassed hlocated hend)
    | false =>
      rw [if_neg Bool.false_ne_true]
      refine Attempts.bind (hsearch hlocated hend) ?_
      intro found t ht
      cases found with
      | true => exact ht
      | false => exact hnoting ht

theorem ensureLocated_of_located (hlocated : s.unit.located = true) (hfound : P true s) :
    Attempts ensureLocated s P R :=
  ensureLocated_attempts (fun _ => hfound)
    (fun hunlocated => Bool.noConfusion (hunlocated.symm.trans hlocated))
    fun hunlocated => Bool.noConfusion (hunlocated.symm.trans hlocated)

theorem ensureLocated_of_found {I : Session → Prop} (hend : s.unit.connection.atEnd = false)
    (hfound : s.unit.located = true → I s)
    (hsearch : s.unit.located = false →
      Succeeds findRecord s fun found t => found = true ∧ I t.atLocated) :
    Succeeds ensureLocated s fun found t => found = true ∧ I t := by
  refine ensureLocated_attempts (fun hlocated => ⟨rfl, hfound hlocated⟩)
    (fun _ hpassed => Bool.noConfusion (hend.symm.trans hpassed)) fun hlocated _ => ?_
  refine (hsearch hlocated).mono ?_ fun _ _ => id
  rintro _ t ⟨rfl, ht⟩
  exact ⟨rfl, ht⟩

end

/-! ### A look at the record -/

section

variable {P : Option Char → Session → Prop} {R : Fault → Session → Prop}

def atCursor : Attempt Session (Option Char) := do
  let u := (← get).unit
  if u.connection.remaining = some 0 then return none
  let offset := u.dataOffset + u.connection.position
  if (← windowed (Windowed.read offset 1)) = 0 then return none
  return ((← get).unit.window.bytesAt offset 1).head?.map fun b => Char.ofNat b.toNat

/-- At the end of its record a look finds nothing; before it, what a read of one byte gets. -/
theorem atCursor_attempts {length offset : ℕ} (hformatted : s.unit.connection.formatted = true)
    (hlength : s.unit.connection.recordLength = some length)
    (hoffset : s.unit.offset + s.unit.connection.position = offset)
    (hbehind : length ≤ s.unit.connection.position → P none s)
    (hread : s.unit.connection.position < length →
      Attempts (windowed (Windowed.read offset 1)) s (fun got t =>
        P (if got = 0 then none
          else (t.unit.window.bytesAt offset 1).head?.map fun b => Char.ofNat b.toNat) t) R) :
    Attempts atCursor s P R := by
  have hremaining : s.unit.connection.remaining = some (length - s.unit.connection.position) := by
    rw [Connection.remaining, hlength]
    rfl
  rw [atCursor]
  refine (attempts_get _).mpr ?_
  dsimp only
  rw [hremaining, ExternalUnit.dataOffset_of_formatted hformatted, hoffset]
  rcases Nat.lt_or_ge s.unit.connection.position length with hinside | hend
  · rw [if_neg (by simpa using Nat.sub_ne_zero_of_lt hinside)]
    refine Attempts.bind (hread hinside) ?_
    intro got t ht
    split_ifs at ht ⊢
    · exact ht
    · exact ht
  · rw [if_pos (by rw [Nat.sub_eq_zero_of_le hend])]
    exact hbehind hend

theorem peek_attempts (hformatted : s.unit.connection.formatted = true)
    (hread : s.unit.attachment.mayRead = true)
    (hlocate : Attempts ensureLocated s
      (fun found t => if found then Attempts atCursor t P R else P none t) R) :
    Attempts peek s P R := by
  rw [peek]
  refine (attempts_get _).mpr ?_
  rw [if_neg (by simp [hformatted])]
  refine Attempts.bind (requireReadable_of_mayRead hread).attempts ?_
  intro _ t ht
  rw [ht]
  refine Attempts.bind hlocate ?_
  intro found u hu
  cases found with
  | true => exact hu
  | false => exact hu

end

theorem nextChar_of_peek {Q : Option Char → Session → Prop} (h : Succeeds peek s Q) :
    Completes nextChar s Q := by
  refine Ends.bind h ?_
  intro r t ht
  cases r with
  | error f => exact ht.elim
  | ok ch => exact ht

/-! ### Moves -/

section

variable {Q : Session → Prop} {R : Fault → Session → Prop}

theorem moveTo_of_within {column : ℕ}
    (hwithin : ∀ length, s.unit.connection.fixedRecordLength = some length → column ≤ length) :
    Succeeds (moveTo column) s fun _ t =>
      t = { s with unit := s.unit.setConnection fun c => { c with position := column } } := by
  rw [moveTo]
  refine (attempts_get _).mpr ?_
  dsimp only
  cases hfixed : s.unit.connection.fixedRecordLength with
  | none => exact modifyConnection_succeeds _
  | some length =>
    dsimp only
    rw [if_neg (not_lt.mpr (hwithin length hfixed))]
    exact modifyConnection_succeeds _

theorem moveTo_of_over {column length : ℕ}
    (hfixed : s.unit.connection.fixedRecordLength = some length) (hover : length < column)
    (hend : s.unit.connection.nonAdvancing = true →
      s.handler.declared.admits .endOfRecord = true ∧ Q
        { s with
          unit := s.unit.setConnection fun c => { c with position := length }
          handler := s.handler.record .endOfRecord })
    (hfault : s.unit.connection.nonAdvancing = false →
      R (if s.unit.reading then .recordReadOverrun else .recordWriteOverrun)
        { s with unit := s.unit.setConnection fun c => { c with position := length } }) :
    Attempts (moveTo column) s (fun _ => Q) R := by
  rw [moveTo]
  refine (attempts_get _).mpr ?_
  dsimp only
  rw [hfixed]
  dsimp only
  rw [if_pos hover]
  refine Attempts.bind (modifyConnection_succeeds _).attempts ?_
  rintro _ _ rfl
  by_cases hnonAdvancing : s.unit.connection.nonAdvancing = true
  · obtain ⟨hadmits, hQ⟩ := hend hnonAdvancing
    rw [if_pos hnonAdvancing]
    unfold Attempts Completes Ends signalEndOfRecord modifyHandler
    simp only [ExceptT.run]
    rw [Handler.endOfRecord_eq hadmits]
    exact hQ
  · rw [if_neg hnonAdvancing]
    exact hfault (Bool.eq_false_iff.mpr hnonAdvancing)

def onNextInput (s : Session) : Session :=
  { s with unit := nextRecord { s.unit with
      offset := s.unit.offset + inputStride s.unit, located := false } }

theorem advanceRecord_of_input (hreading : s.unit.reading = true)
    (hlocate : Attempts ensureLocated s (fun found t => if found then Q t.onNextInput else Q t) R) :
    Attempts advanceRecord s (fun _ => Q) R := by
  rw [advanceRecord]
  refine (attempts_get _).mpr ?_
  rw [hreading, if_pos rfl]
  refine Attempts.bind hlocate ?_
  intro found t ht
  cases found with
  | true => exact ht
  | false => exact ht

end

end DataTransfer.Session
