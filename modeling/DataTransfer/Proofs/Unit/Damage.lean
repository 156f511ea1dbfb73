import Mathlib
import DataTransfer.Proofs.Unit.Opening
import DataTransfer.Proofs.Unit.Reading

/-!
Unformatted sequential READs of files with any bytes. A file begins with the records that it is made of
as far as this goes; what follows them is nothing, or damage that no READ passes.
-/

namespace DataTransfer

/-! ### The grammar of records -/

namespace Bytes

theorem ofLittleEndian_lt (bs : Bytes) : bs.ofLittleEndian < 256 ^ bs.length := by
  induction bs with
  | nil => exact Nat.one_pos
  | cons b bs ih =>
    have hb := b.toNat_lt
    change b.toNat + 256 * ofLittleEndian bs < 256 ^ (bs.length + 1)
    rw [Nat.pow_succ]
    omega

theorem littleEndian_ofLittleEndian (bs : Bytes) :
    littleEndian bs.length bs.ofLittleEndian = bs := by
  induction bs with
  | nil => rfl
  | cons b bs ih =>
    have hvalue : ofLittleEndian (b :: bs) = b.toNat + 256 * ofLittleEndian bs := rfl
    have hb := b.toNat_lt
    have hhead : UInt8.ofNat (b.toNat + 256 * ofLittleEndian bs) = b := by
      rw [← UInt8.toNat_inj, UInt8.toNat_ofNat']
      omega
    have htail : (b.toNat + 256 * ofLittleEndian bs) / 256 = ofLittleEndian bs := by omega
    rw [List.length_cons, littleEndian, hvalue, hhead, htail, ih]

end Bytes

/-- Bytes that do not begin with a record, and what is wrong with them. -/
inductive Damage (rest : Bytes) : String → Prop
  | header (hne : rest ≠ []) (hshort : rest.length < 4) : Damage rest "truncated record header"
  | length {header : ℕ} (hheader : Bytes.ofLittleEndian (rest.take 4) = header)
    (hfour : 4 ≤ rest.length) (hshort : rest.length < 8 + header) :
    Damage rest ("hit EOF reading record with length " ++ toString header ++ " bytes")
  | footer {header footer : ℕ} (hheader : Bytes.ofLittleEndian (rest.take 4) = header)
    (hfooter : Bytes.ofLittleEndian (rest.slice (4 + header) 4) = footer)
    (hlong : 8 + header ≤ rest.length) (hne : footer ≠ header) :
    Damage rest ("record header has length " ++ toString header ++
      " that does not match record footer (" ++ toString footer ++ ")")

theorem Damage.unique {rest : Bytes} {problem problem' : String} (h : Damage rest problem)
    (h' : Damage rest problem') : problem = problem' := by
  cases h <;> cases h' <;> first | rfl | omega | (subst_vars; rfl)

theorem Damage.ne_nil {rest : Bytes} {problem : String} (h : Damage rest problem) : rest ≠ [] := by
  rintro rfl
  cases h with
  | header hne hshort => exact hne rfl
  | length hheader hfour hshort => cases hfour
  | footer hheader hfooter hlong hne =>
    have hnone : 8 + _ ≤ 0 := hlong
    omega

theorem take_frame (payload after : Bytes) (hlt : payload.length < 2 ^ 32) :
    Bytes.ofLittleEndian ((frame payload ++ after).take 4) = payload.length := by
  have h := (FrameAt.of_append [] after hlt).header
  change (frame payload ++ after).take 4 = _ at h
  rw [h, Session.ofLittleEndian_length hlt]

theorem Damage.not_frame {payload after : Bytes} {problem : String}
    (h : Damage (frame payload ++ after) problem) : ¬ payload.length < 2 ^ 32 := by
  intro hlt
  have hheader' := take_frame payload after hlt
  have hlength : (frame payload ++ after).length = payload.length + 8 + after.length := by simp
  cases h with
  | header hne hshort => omega
  | length hheader hfour hshort => omega
  | footer hheader hfooter hlong hne =>
    obtain rfl := hheader.symm.trans hheader'
    have hstands := (FrameAt.of_append [] after hlt).footer
    rw [List.length_nil, Nat.zero_add, List.nil_append] at hstands
    rw [hstands, Session.ofLittleEndian_length hlt] at hfooter
    exact hne hfooter.symm

theorem frame_or_damage (rest : Bytes) : rest = [] ∨
    (∃ payload after, payload.length < 2 ^ 32 ∧ rest = frame payload ++ after) ∨
      ∃ problem, Damage rest problem := by
  by_cases hne : rest = []
  · exact .inl hne
  by_cases hfour : rest.length < 4
  · exact .inr (.inr ⟨_, .header hne hfour⟩)
  by_cases hlong : 8 + Bytes.ofLittleEndian (rest.take 4) ≤ rest.length
  swap
  · exact .inr (.inr ⟨_, .length rfl (not_lt.mp hfour) (not_le.mp hlong)⟩)
  by_cases hfooter : Bytes.ofLittleEndian (rest.slice (4 + Bytes.ofLittleEndian (rest.take 4)) 4) =
      Bytes.ofLittleEndian (rest.take 4)
  swap
  · exact .inr (.inr ⟨_, .footer rfl rfl hlong hfooter⟩)
  generalize hheader : Bytes.ofLittleEndian (rest.take 4) = header at hlong hfooter
  have hmarker (bs : Bytes) (hlen : bs.length = 4) (hvalue : bs.ofLittleEndian = header) :
      bs = Bytes.littleEndian 4 header := by
    rw [← hvalue, ← hlen, Bytes.littleEndian_ofLittleEndian]
  have hfirst := hmarker (rest.take 4) (by rw [List.length_take]; omega) hheader
  have hlast := hmarker (rest.slice (4 + header) 4) (by rw [Bytes.length_slice]; omega) hfooter
  have hlt := Bytes.ofLittleEndian_lt (rest.take 4)
  rw [hheader, List.length_take, Nat.min_eq_left (not_lt.mp hfour)] at hlt
  have hlength : (rest.slice 4 header).length = header := by
    rw [Bytes.length_slice]
    omega
  refine .inr (.inl ⟨rest.slice 4 header, rest.drop (8 + header), by rw [hlength]; exact hlt, ?_⟩)
  have hparts : rest.take (8 + header) =
      Bytes.littleEndian 4 header ++ rest.slice 4 header ++ Bytes.littleEndian 4 header := by
    have hsplit := Bytes.slice_add rest 0 (4 + header) 4
    have hhead : rest.slice 0 4 = Bytes.littleEndian 4 header := hfirst
    rw [Nat.zero_add, hlast, Bytes.slice_add rest 0 4 header, Nat.zero_add, hhead] at hsplit
    rw [← hsplit, Nat.add_right_comm]
    rfl
  rw [frame, hlength, ← hparts, List.take_append_drop]

theorem exists_records (content : Bytes) : ∃ payloads rest, content = frames payloads ++ rest ∧
    (∀ payload ∈ payloads, payload.length < 2 ^ 32) ∧
    (rest = [] ∨ ∃ problem, Damage rest problem) := by
  induction hlen : content.length using Nat.strong_induction_on generalizing content with
  | _ n ih =>
    obtain hnil | ⟨payload, after, hlt, rfl⟩ | hdamage := frame_or_damage content
    · exact ⟨[], content, rfl, by simp, .inl hnil⟩
    · have hshorter : after.length < n := by
        rw [← hlen, List.length_append, length_frame]
        omega
      obtain ⟨payloads, rest, rfl, hlts, hrest⟩ := ih after.length hshorter after rfl
      refine ⟨payload :: payloads, rest, (List.append_assoc _ _ _).symm, ?_, hrest⟩
      exact List.forall_mem_cons.mpr ⟨hlt, hlts⟩
    · exact ⟨[], content, rfl, by simp, .inr hdamage⟩

theorem frame_append_inj {p q after after' : Bytes} (hp : p.length < 2 ^ 32)
    (hq : q.length < 2 ^ 32) (h : frame p ++ after = frame q ++ after') : p = q ∧ after = after' := by
  have hlength : p.length = q.length := by
    rw [← take_frame p after hp, h, take_frame q after' hq]
  have hslice (x after : Bytes) (hx : x.length < 2 ^ 32) :
      (frame x ++ after).slice 4 x.length = x := by
    have hpart := (FrameAt.of_append [] after hx).payload_slice (Nat.zero_add x.length).le
    rw [Bytes.slice_length] at hpart
    exact hpart
  have hsame : p = q := by
    rw [← hslice p after hp, h, hlength, hslice q after' hq]
  subst hsame
  exact ⟨rfl, List.append_cancel_left h⟩

/-- No longer run of records begins a file. -/
theorem isPrefix_of_frames {content rest : Bytes} {payloads others : List Bytes}
    (hcontent : content = frames payloads ++ rest)
    (hlt : ∀ payload ∈ payloads, payload.length < 2 ^ 32)
    (hrest : rest = [] ∨ ∃ problem, Damage rest problem)
    (hothers : ∀ payload ∈ others, payload.length < 2 ^ 32) (hfront : frames others <+: content) :
    others <+: payloads := by
  subst hcontent
  induction others generalizing payloads with
  | nil => exact List.nil_prefix
  | cons other others ih =>
    obtain ⟨hother, hothers⟩ := List.forall_mem_cons.mp hothers
    obtain ⟨after, hafter⟩ := hfront
    have hsplit : frame other ++ (frames others ++ after) = frames payloads ++ rest := by
      rw [← hafter]
      exact (List.append_assoc _ _ _).symm
    cases payloads with
    | nil =>
      change frame other ++ (frames others ++ after) = rest at hsplit
      subst hsplit
      obtain hnil | ⟨problem, hdamage⟩ := hrest
      · have hlength := congrArg List.length hnil
        simp at hlength
      · exact absurd hother hdamage.not_frame
    | cons payload payloads =>
      obtain ⟨hpayload, hpayloads⟩ := List.forall_mem_cons.mp hlt
      have hassoc : frames (payload :: payloads) ++ rest =
          frame payload ++ (frames payloads ++ rest) := List.append_assoc _ _ _
      obtain ⟨rfl, hnext⟩ := frame_append_inj hother hpayload (hsplit.trans hassoc)
      exact List.cons_prefix_cons.mpr ⟨rfl, ih hpayloads hothers ⟨after, hnext⟩⟩

/-! ### READs -/

/-- An unformatted READ by the bytes that it receives in turn. -/
structure UnformattedRead where
  source : SourceLine := {}
  receivers : Receivers := { iostat := true }
  counts : List ℕ

namespace UnformattedRead

/-- The answers to the receives, the message when they are done, and how the READ ends. -/
def perform (read : UnformattedRead) :
    Act Session ((List (Bool × Option Bytes) × Option String) × Iostat) :=
  Session.statement (.unformatted .input) read.source read.receivers do
    let answers ← read.counts.mapM Session.receive
    return (answers, (← get).handler.message?)

def handler (read : UnformattedRead) : Handler :=
  ({ source := read.source } : Handler).declare read.receivers

/-- A READ that finds no record gets nothing. Unless there is nothing to get it knows why. -/
def misses (read : UnformattedRead) (status : Iostat) (message? : Option String) :
    (List (Bool × Option Bytes) × Option String) × Iostat :=
  ((read.counts.map fun _ => (false, none), if read.counts = [] then none else message?), status)

def messageOf? (read : UnformattedRead) (f : Fault) : Option String :=
  if read.receivers.iomsg then some f.message else f.iostat.message?

/-- What a READ has to do with the payload of its record or, when there are no more, with what is left
at the end of the file, where a record of this number would start at this offset. -/
def Sees (read : UnformattedRead) (rest : Bytes) (record offset : ℕ) (payload? : Option Bytes)
    (out : (List (Bool × Option Bytes) × Option String) × Iostat) : Prop :=
  match payload? with
  | some payload => (out.1.1, out.2) = receives payload false 0 read.counts
  | none =>
    (rest = [] → out = read.misses .endOfFile Iostat.endOfFile.message?) ∧
      ∀ problem, Damage rest problem → out = read.misses .badUnformattedRecord
        (read.messageOf? (.badUnformattedRecord (Session.corruptText record offset problem)))

def struck (read : UnformattedRead) (text : String) : Handler :=
  { read.handler with
    status := .badUnformattedRecord
    saved := if read.receivers.iomsg then some text else none }

theorem fault_eq (read : UnformattedRead) (hr : read.receivers.receivesError = true) (text : String) :
    read.handler.fault (.badUnformattedRecord text) = .ok (read.struck text) := by
  have hdeclared : read.handler.declared = read.receivers := rfl
  have hkept : read.handler.status.rank < (Fault.badUnformattedRecord text).iostat.rank := by
    change Iostat.ok.rank < Iostat.badUnformattedRecord.rank
    decide
  have hrecord : read.handler.record (Fault.badUnformattedRecord text).iostat =
      { read.handler with status := .badUnformattedRecord } := if_pos hkept
  rw [Handler.fault, hdeclared, if_pos hr]
  dsimp only
  rw [hrecord, decide_eq_true hkept, Bool.true_and, hdeclared, struck]
  cases read.receivers.iomsg <;> rfl

theorem message?_struck (read : UnformattedRead) (text : String) :
    (read.struck text).message? = read.messageOf? (.badUnformattedRecord text) := by
  unfold struck messageOf? Handler.message?
  cases read.receivers.iomsg <;> rfl

end UnformattedRead

namespace Session

section

variable {s : Session} {content rest : Bytes} {V : View content} {offset record : ℕ}
variable {problem : String}

/-- Damage is found whenever its record is looked for. -/
theorem locateUnformatted_of_damage (h : V.shown s.channel) (hoffset : s.unit.offset ≤ content.length)
    (hd : Damage (content.drop s.unit.offset) problem) :
    Attempts locateUnformatted s (fun _ _ => False) fun f t =>
      f = .badUnformattedRecord (corruptText s.unit.connection.record s.unit.offset problem) ∧
        ∃ w, V.shown w ∧ t = s.withChannel w := by
  have hrest : (content.drop s.unit.offset).length = content.length - s.unit.offset :=
    List.length_drop
  cases hd with
  | header hne hshort =>
    have hpos := List.length_pos_iff.mpr hne
    simp only [locateUnformatted, attempts_get, ExternalUnit.markerBytes]
    refine Attempts.bind (View.read_succeeds h 4 hoffset).attempts ?_
    rintro got _ ⟨w, ⟨hw, hgot, -⟩, rfl⟩
    rw [if_neg (by omega), if_pos (by omega)]
    exact ⟨rfl, w, hw, rfl⟩
  | length hheader hfour hshort =>
    exact locateUnformatted_of_header h rfl hheader rfl (by omega) (fun _ w hw => ⟨rfl, w, hw, rfl⟩)
      (fun hlong => absurd hlong (by omega)) fun hlong => absurd hlong (by omega)
  | footer hheader hfooter hlong hne =>
    rw [Bytes.slice, List.drop_drop, ← Nat.add_assoc] at hfooter
    exact locateUnformatted_of_header h rfl hheader hfooter (by omega)
      (fun hcut => absurd hcut (by omega)) (fun _ _ w hw => ⟨rfl, w, hw, rfl⟩)
      fun _ heq => absurd heq hne

/-- A READ before damage meets it whenever it looks for its record. -/
theorem Seeking.misses_damage (V : View content) (record : ℕ) (hoffset : offset ≤ content.length)
    (hd : Damage (content.drop offset) problem) {handler struck : Handler}
    (hfault : handler.fault (.badUnformattedRecord (corruptText record offset problem)) = .ok struck)
    (hstatus : struck.status = .badUnformattedRecord) :
    Misses (fun s => Seeking V s offset record ∧ s.unit.connection.endRecord = none ∧
      (s.handler = handler ∨ s.handler = struck)) .badUnformattedRecord where
  ensureLocated s := by
    rintro ⟨h, hend, hhandler⟩
    have hatEnd : s.unit.connection.atEnd = false := by rw [Connection.atEnd, hend]
    have hlocate := locateUnformatted_of_damage h.shown (h.offset_eq ▸ hoffset) (h.offset_eq ▸ hd)
    rw [h.record_eq, h.offset_eq] at hlocate
    refine ensureLocated_attempts (fun hlocated => Bool.noConfusion (h.located_eq.symm.trans hlocated))
      (fun _ hpassed => Bool.noConfusion (hatEnd.symm.trans hpassed)) fun _ _ => ?_
    refine findRecord_of_unformatted h.form (hlocate.mono (fun _ _ => False.elim) ?_)
    rintro _ _ ⟨rfl, w, hw, rfl⟩
    refine ⟨struck, ?_, ⟨{ h with shown := hw, form := { h.form with } }, hend, .inr rfl⟩, hstatus⟩
    rcases hhandler with heq | heq <;> rw [withChannel, heq]
    · exact hfault
    · exact Handler.fault_again hfault
  status_ne := by decide
  formatted s h := h.1.form.formatted
  mayRead s h := V.mayRead h.1.shown
  reading s h := h.1.reading_eq

end

/-! ### READs in turn -/

section

variable {s : Session} {content payload rest : Bytes} {device : Channel} {offset record : ℕ}
variable {hterminal : device.attachment.isTerminal = false}
variable {hsize : content.length < FileSystem.offsetLimit} {problem : String}

theorem Standing.seeking {V : View content} (h : Standing V s offset record) (source : SourceLine)
    (r : Receivers) : Seeking V (s.beginning (.unformatted .input) source r) offset record :=
  { h with
    form := { h.form with }
    reading_eq := rfl
    statement_eq := rfl }

theorem Standing.perform_completes (h : Standing (.ofShows hterminal hsize) s offset record)
    (read : UnformattedRead) {Q : (List (Bool × Option Bytes) × Option String) × Iostat → Session → Prop}
    (hwork : Completes (read.counts.mapM receive)
      (s.beginning (.unformatted .input) read.source read.receivers) fun answers t =>
        Completes finish t fun status u => Q ((answers, t.handler.message?), status) u) :
    Completes read.perform s Q := by
  refine statement_completes
    (B := fun t => t = s.beginning (.unformatted .input) read.source read.receivers)
    (begin_of_clean (fun _ => rfl) h.shown.1 h.located_eq read.source read.receivers) ?_
  rintro _ rfl
  apply Ends.bind hwork
  intro answers t hfinish
  exact (ends_get _).mpr hfinish

theorem Standing.read_record (h : Standing (.ofShows hterminal hsize) s offset record)
    (hend : s.unit.connection.endRecord = none) (hframe : FrameAt content offset payload)
    (read : UnformattedRead) (hr : read.receivers.receivesError = true) :
    Completes read.perform s fun out t =>
      (out.1.1, out.2) = receives payload false 0 read.counts ∧
        Standing (.ofShows hterminal hsize) t (offset + (frame payload).length) (record + 1) ∧
        t.unit.connection.endRecord = none := by
  refine h.perform_completes read ?_
  have hadmits := Receivers.admits_of_receivesError hr (receives payload false 0 read.counts).2
  have hreading := (h.seeking read.source read.receivers).reading payload (r := read.receivers) hend
    rfl rfl
  refine (hreading.receives_complete read.counts hframe hadmits).mono ?_ fun _ _ => id
  rintro answers t ⟨failed, pos, hreceives, ht⟩
  refine (ht.finish_completes hframe).mono ?_ fun _ _ => id
  rintro _ u ⟨rfl, hu⟩
  exact ⟨hreceives.symm, hu⟩

theorem Standing.read_misses (h : Standing (.ofShows hterminal hsize) s offset record)
    (read : UnformattedRead) {I : Session → Prop} {status : Iostat} {final : Handler}
    (hI : Misses I status) (hfinal : final.status = status)
    (hbegun : I (s.beginning (.unformatted .input) read.source read.receivers))
    (hseeking : ∀ t, I t → Seeking (.ofShows hterminal hsize) t offset record)
    (hhandler : ∀ t, I t → t.handler = read.handler ∨ t.handler = final) :
    Completes read.perform s fun out t => out = read.misses status final.message? ∧
      Standing (.ofShows hterminal hsize) t offset record ∧ ∃ u, I u ∧ t = u.ended := by
  refine h.perform_completes read ?_
  refine (hI.receives_complete read.counts hbegun).mono ?_ fun _ _ => id
  rintro _ t ⟨rfl, ht, hstatus⟩
  have hmessage : t.handler.message? = if read.counts = [] then none else final.message? := by
    split_ifs at hstatus ⊢ with hcounts
    · obtain heq | heq := hhandler t ht
      · rw [heq]
        rfl
      · exact absurd (hfinal.symm.trans ((congrArg Handler.status heq).symm.trans hstatus)) hI.status_ne
    · obtain heq | heq := hhandler t ht
      · rw [heq] at hstatus
        exact absurd hstatus.symm hI.status_ne
      · rw [heq]
  refine (Seeking.finish_of_misses hI hseeking ht).mono ?_ fun _ _ => id
  rintro _ u ⟨rfl, hu⟩
  rw [hmessage]
  exact ⟨rfl, hu⟩

theorem Standing.read_rest {before : Bytes} (hcontent : content = before ++ rest)
    (h : Standing (.ofShows hterminal hsize) s before.length record)
    (hend : rest ≠ [] → s.unit.connection.endRecord = none)
    (hrest : rest = [] ∨ ∃ problem, Damage rest problem) (read : UnformattedRead)
    (hr : read.receivers.receivesError = true) :
    Completes read.perform s fun out t => read.Sees rest record before.length none out ∧
      Standing (.ofShows hterminal hsize) t before.length record ∧
      (rest ≠ [] → t.unit.connection.endRecord = none) := by
  have hlength : content.length = before.length + rest.length := by
    rw [hcontent, List.length_append]
  obtain rfl | ⟨problem, hd⟩ := hrest
  · rw [List.length_nil, Nat.add_zero] at hlength
    rw [← hlength] at h ⊢
    have hstatus : read.handler.status = .ok := rfl
    have hmisses := Seeking.misses_end (.ofShows hterminal hsize) record hstatus
      (Receivers.admits_of_receivesError hr _)
    refine (h.read_misses read hmisses rfl ⟨h.seeking _ _, .inl rfl⟩ (fun _ ht => ht.1)
      fun _ ht => ht.2).mono ?_ fun _ _ => id
    rintro _ t ⟨rfl, ht, -⟩
    exact ⟨⟨fun _ => rfl, fun _ hd => absurd rfl hd.ne_nil⟩, ht, fun hne => absurd rfl hne⟩
  · have hdrop : content.drop before.length = rest := by
      rw [hcontent, List.drop_left]
    rw [← hdrop] at hd
    have hmisses := Seeking.misses_damage (.ofShows hterminal hsize) record (by omega) hd
      (read.fault_eq hr _) rfl
    refine (h.read_misses read hmisses rfl ⟨h.seeking _ _, hend (hdrop ▸ hd.ne_nil), .inl rfl⟩
      (fun _ ht => ht.1) fun _ ht => ht.2.2).mono ?_ fun _ _ => id
    rintro _ _ ⟨rfl, ht, u, hu, rfl⟩
    refine ⟨⟨fun hnil => absurd hnil (hdrop ▸ hd.ne_nil), ?_⟩, ht, fun _ => hu.2.1⟩
    intro problem' hd'
    rw [← hdrop] at hd'
    rw [hd'.unique hd, read.message?_struck]

/-- READs in turn take the records of a file, and then meet what is left behind them. -/
theorem Standing.reads_complete (reads : List UnformattedRead) {before : Bytes}
    {payloads : List Bytes} (hcontent : content = before ++ (frames payloads ++ rest))
    (h : Standing (.ofShows hterminal hsize) s before.length record)
    (hend : frames payloads ++ rest ≠ [] → s.unit.connection.endRecord = none)
    (hlt : ∀ payload ∈ payloads, payload.length < 2 ^ 32)
    (hrest : rest = [] ∨ ∃ problem, Damage rest problem)
    (hreads : ∀ read ∈ reads, read.receivers.receivesError = true) :
    Completes (reads.mapM UnformattedRead.perform) s fun outs t =>
      t.channel.device = device ∧ outs.length = reads.length ∧
      ∀ (k : ℕ) (read : UnformattedRead) out, reads[k]? = some read → outs[k]? = some out →
        read.Sees rest (record + payloads.length) (before ++ frames payloads).length payloads[k]?
          out := by
  -- Each READ takes the first record that is left, or finds that none is.
  refine (Ends.mapM (I := fun k t =>
    Standing (.ofShows hterminal hsize) t (before ++ frames (payloads.take k)).length
      (record + (payloads.take k).length) ∧
    (frames (payloads.drop k) ++ rest ≠ [] → t.unit.connection.endRecord = none))
    (P := fun k read out => read.Sees rest (record + payloads.length)
      (before ++ frames payloads).length payloads[k]? out) ?_ ⟨?_, hend⟩).mono ?_ fun _ _ => id
  · rintro k read hread t ⟨ht, hend⟩
    have hr := hreads read (List.mem_of_getElem? hread)
    have hsplit : content = before ++ frames (payloads.take k) ++ (frames (payloads.drop k) ++ rest) := by
      rw [hcontent, List.append_assoc, ← List.append_assoc (frames (payloads.take k)), ← frames_append,
        List.take_append_drop]
    rcases Nat.lt_or_ge k payloads.length with hk | hk
    · rw [List.drop_eq_getElem_cons hk, frames_cons, List.append_assoc (frame _)] at hsplit hend
      have hframe := FrameAt.of_append (before ++ frames (payloads.take k))
        (frames (payloads.drop (k + 1)) ++ rest) (hlt _ (List.getElem_mem hk))
      rw [← hsplit] at hframe
      have hne : frame payloads[k] ++ (frames (payloads.drop (k + 1)) ++ rest) ≠ [] := by
        intro hnil
        have hlength := congrArg List.length hnil
        simp at hlength
      refine (ht.read_record (hend hne) hframe read hr).mono ?_ fun _ _ => id
      rintro out u ⟨hout, hu, hend'⟩
      have htaken : (payloads.take (k + 1)).length = (payloads.take k).length + 1 := by
        rw [List.length_take_of_le hk, List.length_take_of_le hk.le]
      rw [htaken, List.take_add_one, List.getElem?_eq_getElem hk, Option.toList_some, frames_append,
        frames_singleton, ← List.append_assoc]
      rw [← List.length_append] at hu
      exact ⟨hout, hu, fun _ => hend'⟩
    · rw [List.drop_of_length_le hk] at hsplit hend
      rw [List.take_of_length_le hk] at hsplit ht
      rw [List.drop_of_length_le (by omega), List.take_of_length_le (by omega),
        List.getElem?_eq_none hk]
      exact ht.read_rest hsplit hend hrest read hr
  · simpa [frames] using h
  · rintro outs t ⟨hlength, houts, ht, -⟩
    exact ⟨ht.shown.2, hlength, houts⟩

end

/-- READs of a file that has been opened for unformatted sequential access, at its start, whatever
bytes it holds. The file begins with the longest run of records that there is. Each READ takes the next
of them: receives get the bytes of its payload in turn and no others. READs behind the last record meet
the end of the file if nothing is left there. If anything is left it is damage, and each READ meets the
same fault, which tells the number of the record and where it starts. -/
theorem reads_take_records {s t : Session} {status : OpenStatus} {position : Position}
    {path : Option String} {source : SourceLine} {w : Receivers} {iostat : Iostat} {n : ℕ}
    {writable : Bool} (hfresh : s.unit.reaffirms status path = false)
    (hopen : statement .connect source w (openUnit status position path { formatted := false }) s =
      .ok (true, iostat) t)
    (hfile : t.unit.attachment.backing = some (.file (.node n) writable))
    (hstart : t.unit.offset = 0)
    (hsize : (t.system.files.contentAt n).length < FileSystem.offsetLimit)
    (reads : List UnformattedRead)
    (hreads : ∀ read ∈ reads, read.receivers.receivesError = true) :
    ∃ (payloads : List Bytes) (rest : Bytes), t.system.files.contentAt n = frames payloads ++ rest ∧
      (∀ payload ∈ payloads, payload.length < 2 ^ 32) ∧
      (∀ others : List Bytes, (∀ payload ∈ others, payload.length < 2 ^ 32) →
        frames others <+: t.system.files.contentAt n → others <+: payloads) ∧
      (rest = [] ∨ ∃ problem, Damage rest problem) ∧
      Completes (reads.mapM UnformattedRead.perform) t fun outs u =>
        u.system = t.system ∧ outs.length = reads.length ∧
        ∀ (k : ℕ) (read : UnformattedRead) out, reads[k]? = some read → outs[k]? = some out →
          read.Sees rest (payloads.length + 1) (frames payloads).length payloads[k]? out := by
  obtain ⟨ref, writable', hopened⟩ := opened_of_open hfresh hopen
  obtain ⟨payloads, rest, hcontent, hlt, hrest⟩ := exists_records (t.system.files.contentAt n)
  refine ⟨payloads, rest, hcontent, hlt, fun others hothers hfront =>
    isPrefix_of_frames hcontent hlt hrest hothers hfront, hrest, ?_⟩
  have hconnection := hopened.connection_eq
  have hterminal : t.channel.device.attachment.isTerminal = false := by
    change t.unit.attachment.isTerminal = false
    rw [hopened.attachment_eq]
    rfl
  have hstanding : Standing (.ofShows hterminal hsize) t ([] : Bytes).length 1 :=
    { shown := ⟨hopened.shows hfile, rfl⟩
      form := by
        rw [hconnection]
        exact ⟨rfl, rfl, rfl, rfl⟩
      offset_eq := hstart
      record_eq := by rw [hconnection]
      position_eq := by rw [hconnection]
      furthest_eq := by rw [hconnection]
      located_eq := hopened.located_eq }
  refine (hstanding.reads_complete reads hcontent (fun _ => by rw [hconnection]) hlt hrest
    hreads).mono ?_ fun _ _ => id
  rintro outs u ⟨hdevice, hlength, houts⟩
  refine ⟨congrArg Channel.system hdevice, hlength, ?_⟩
  rw [Nat.add_comm, List.nil_append] at houts
  exact houts

/-- A record, and behind it half of a header. -/
theorem reads_take_records_torn :
    Completes (do
        discard (statement .connect {} {} (openUnit .old .asIs (some "a") { formatted := false }))
        [{ counts := [1, 1] }, { receivers := { iostat := true, iomsg := true }, counts := [1] },
          { counts := [] }].mapM UnformattedRead.perform)
      { system := { files := { nodes := [{ content := [1, 0, 0, 0, 97, 1, 0, 0, 0, 3, 0] }]
                               names := [(["a"], 0)] } }
        unit := .new 10 1 } fun outs _ => ∃ message?,
      outs = [(([(true, some [97]), (false, none)], message?), .recordReadOverrun),
        (([(false, none)], some (corruptText 2 9 "truncated record header")), .badUnformattedRecord),
        (([], none), .badUnformattedRecord)] := by
  have hopen : ({ nodes := [{ content := [1, 0, 0, 0, 97, 1, 0, 0, 0, 3, 0] }]
                  names := [(["a"], 0)] } : FileSystem).open_ "a" (Channel.request .old) =
      .ok (.node 0, { nodes := [{ content := [1, 0, 0, 0, 97, 1, 0, 0, 0, 3, 0] }]
                      names := [(["a"], 0)] }) := by cbv
  obtain ⟨_, t, hrun, rfl, hsystem, hunit⟩ := (open_completes
    (s := { system := { files := _ }, unit := .new 10 1 }) { formatted := false } {} {} rfl (by decide)
      hopen).exists_run
  have hfile : t.unit.attachment.backing = some (.file (.node 0) true) := by
    rw [hunit]
    rfl
  have hcontent : t.system.files.contentAt 0 = [1, 0, 0, 0, 97, 1, 0, 0, 0, 3, 0] := by
    rw [hsystem]
    rfl
  apply Ends.bind (Completes.of_run hrun).discard
  rintro _ _ ⟨_, -, rfl⟩
  obtain ⟨payloads, rest, hsplit, hlt, hlongest, hrest, hcompletes⟩ := reads_take_records rfl hrun hfile
    (by rw [hunit]; rfl) (by rw [hcontent]; decide)
    [{ counts := [1, 1] }, { receivers := { iostat := true, iomsg := true }, counts := [1] },
      { counts := [] }] (by decide)
  -- The one record, and too few bytes behind it for a second one.
  rw [hcontent] at hsplit hlongest
  obtain ⟨others, rfl⟩ := hlongest [[97]] (by decide) ⟨[3, 0], by decide⟩
  obtain rfl : others = [] := by
    cases others with
    | nil => rfl
    | cons other others =>
      have hlength := congrArg List.length hsplit
      simp [frames] at hlength
      omega
  have hone : frames ([[97]] ++ []) = [1, 0, 0, 0, 97, 1, 0, 0, 0] := by decide
  obtain rfl : rest = [3, 0] := by
    rw [hone] at hsplit
    simpa using hsplit.symm
  refine hcompletes.mono ?_ fun _ _ => id
  rintro outs u ⟨-, hlength, hsees⟩
  obtain ⟨a, b, c, rfl⟩ := List.length_eq_three.mp hlength
  have ha := hsees 0 _ a rfl rfl
  obtain ⟨-, hb⟩ := hsees 1 _ b rfl rfl
  obtain ⟨-, hc⟩ := hsees 2 _ c rfl rfl
  have hd : Damage [3, 0] "truncated record header" := .header (by decide) (by decide)
  rw [hb _ hd, hc _ hd]
  obtain ⟨⟨answers, message?⟩, status⟩ := a
  cases ha
  exact ⟨message?, rfl⟩

end Session

end DataTransfer
