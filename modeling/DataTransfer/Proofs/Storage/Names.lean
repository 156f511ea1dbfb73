import DataTransfer.Proofs.Storage.OpenFile

/-!
A name under which a file has been opened leads to this file from then on, whatever is written into
it, so that it can be opened again and its content be seen.
-/

namespace DataTransfer.FileSystem

variable {fs gs : FileSystem}

theorem follow_congr (hnames : gs.names = fs.names) (hdirs : gs.directories = fs.directories)
    (here : DirectoryNode) (parts : List String) :
    gs.follow here parts = fs.follow here parts := by
  induction parts generalizing here with
  | nil => rfl
  | cons part rest ih => simp only [follow, directory?, hnames, hdirs, ih]

theorem locate_congr (hnames : gs.names = fs.names) (hdirs : gs.directories = fs.directories)
    (path : String) : gs.locate path = fs.locate path := by
  simp only [locate, directory?, hdirs, follow_congr hnames hdirs]

theorem follow_vacant {name : List String} {parent : DirectoryNode} {n : ℕ}
    (hnames : gs.names = fs.names ++ [(name, n)]) (hdirs : gs.directories = fs.directories)
    (here : DirectoryNode) (parts : List String)
    (h : fs.follow here parts = .ok (.vacant name parent)) :
    gs.follow here parts = .ok (.file (.node n) parent) := by
  have hdir (x : List String) : gs.directory? x = fs.directory? x := by
    rw [directory?, directory?, hdirs]
  induction parts generalizing here with
  | nil => cases h
  | cons part rest ih =>
    rw [follow] at h ⊢
    split_ifs at h ⊢
    · exact ih here h
    · rw [hdir]
      exact ih _ h
    · dsimp only at h ⊢
      rw [hdir, hnames, List.lookup_append]
      cases hd : fs.directory? (here.name ++ [part]) with
      | some d =>
        rw [hd] at h
        cases rest with
        | nil => cases h
        | cons => exact ih d h
      | none =>
        rw [hd] at h
        cases hl : fs.names.lookup (here.name ++ [part]) with
        | some number =>
          rw [hl] at h
          cases rest <;> cases h
        | none =>
          rw [hl] at h
          cases rest with
          | nil =>
            cases h
            simp
          | cons => cases h

theorem locate_vacant {path : String} {name : List String} {parent : DirectoryNode} {n : ℕ}
    (hnames : gs.names = fs.names ++ [(name, n)]) (hdirs : gs.directories = fs.directories)
    (h : fs.locate path = .ok (.vacant name parent)) :
    gs.locate path = .ok (.file (.node n) parent) := by
  rw [locate] at h ⊢
  split_ifs at h ⊢
  · cases h
  · rw [directory?, hdirs, ← directory?]
    cases hd : fs.directory? [] with
    | none =>
      rw [hd] at h
      cases h
    | some here =>
      rw [hd] at h
      exact follow_vacant hnames hdirs here _ h

structure LeadsTo (fs : FileSystem) (path : String) (n : ℕ) : Prop where
  located : ∃ parent, fs.locate path = .ok (.file (.node n) parent)
  notDirectory : Path.asksForDirectory path = false
  permitted : ∃ node, fs.nodes[n]? = some node ∧ node.readable = true ∧ node.writable = true

theorem LeadsTo.lt_length {path : String} {n : ℕ} (h : fs.LeadsTo path n) : n < fs.nodes.length := by
  obtain ⟨node, hnode, -⟩ := h.permitted
  exact (List.getElem?_eq_some_iff.mp hnode).1

theorem LeadsTo.setContent {path : String} {n : ℕ} (h : fs.LeadsTo path n) (content : Bytes) :
    (fs.setContent (.node n) content).LeadsTo path n := by
  obtain ⟨⟨parent, hlocated⟩, hdir, node, hnode, hr, hw⟩ := h
  refine ⟨⟨parent, ?_⟩, hdir, { node with content }, ?_, hr, hw⟩
  · rw [← hlocated]
    exact locate_congr (by rfl) (by rfl) path
  · simp [FileSystem.setContent, hnode]

/-- A name that leads to a file is opened again as this file, and the file keeps its content. -/
theorem LeadsTo.open_eq {path : String} {n : ℕ} (h : fs.LeadsTo path n) {request : Request}
    (hexclusive : request.exclusive = false) (htruncate : request.truncate = false) :
    fs.open_ path request = .ok (.node n, fs) := by
  obtain ⟨⟨parent, hlocated⟩, hdir, node, hnode, hr, hw⟩ := h
  simp [open_, hlocated, hdir, hexclusive, htruncate, node?, hnode, hr, hw, bind, Except.bind]

theorem LeadsTo.reopen {path : String} {n : ℕ} (h : fs.LeadsTo path n) {status : OpenStatus}
    (hstatus : status = .old ∨ status = .unknown) :
    status ≠ .scratch ∧ fs.open_ path (Channel.request status) = .ok (.node n, fs) := by
  rcases hstatus with rfl | rfl <;> exact ⟨by decide, h.open_eq rfl rfl⟩

theorem LeadsTo.contentOf?_eq {path : String} {n : ℕ} (h : fs.LeadsTo path n) :
    fs.contentOf? path = some (fs.contentAt n) := by
  obtain ⟨⟨parent, hlocated⟩, -, node, hnode, hr, -⟩ := h
  simp [contentOf?, hlocated, node?, hnode, hr, contentAt]

theorem LeadsTo.of_rewritten {path : String} {n : ℕ} {content : Bytes} (h : fs.LeadsTo path n)
    (hgs : gs = fs.setContent (.node n) content) :
    gs.LeadsTo path n ∧ gs.contentAt n = content ∧ gs.contentOf? path = some content := by
  subst hgs
  have hcontent := FileSystem.contentAt_setContent fs h.lt_length content
  exact ⟨h.setContent content, hcontent, by rw [(h.setContent content).contentOf?_eq, hcontent]⟩

/-- A file with a number that has been opened was there, or it has been made in a vacant place. -/
theorem open_cases {path : String} {request : Request} {n : ℕ}
    (h : fs.open_ path request = .ok (.node n, gs)) :
    Path.asksForDirectory path = false ∧
      ((∃ parent node, fs.locate path = .ok (.file (.node n) parent) ∧ fs.nodes[n]? = some node ∧
          request.exclusive = false ∧ node.readable = true ∧
          (request.write = true → node.writable = true) ∧
          gs = if request.truncate then fs.setContent (.node n) [] else fs) ∨
        ∃ name parent, fs.locate path = .ok (.vacant name parent) ∧ n = fs.nodes.length ∧
          gs = { fs with nodes := fs.nodes ++ [{}], names := fs.names ++ [(name, n)] }) := by
  unfold open_ at h
  cases hlocated : fs.locate path with
  | error e => simp [hlocated, bind, Except.bind] at h
  | ok place =>
    simp only [hlocated, bind, Except.bind] at h
    cases place with
    | directory => split_ifs at h
    | file ref parent =>
      dsimp only at h
      by_cases hdir : Path.asksForDirectory path = true
      · simp [hdir] at h
      rw [if_neg hdir] at h
      by_cases hexclusive : request.exclusive = true
      · simp [hexclusive] at h
      rw [if_neg hexclusive] at h
      cases hnode : fs.node? ref with
      | none => simp [hnode] at h
      | some node =>
        simp only [hnode] at h
        by_cases hperm : (node.readable && (node.writable || !request.write)) = true
        · rw [if_pos hperm, Except.ok.injEq, Prod.mk.injEq] at h
          obtain ⟨rfl, rfl⟩ := h
          rw [Bool.and_eq_true, Bool.or_eq_true, Bool.not_eq_true'] at hperm
          exact ⟨by simpa using hdir, .inl ⟨parent, node, rfl, hnode, by simpa using hexclusive,
            hperm.1, fun hwrite => hperm.2.resolve_right (by simp [hwrite]), rfl⟩⟩
        · simp [hperm] at h
    | vacant name parent =>
      simp only [anonymous] at h
      split_ifs at h with hcreate hdir
      cases h
      exact ⟨by simpa using hdir, .inr ⟨name, parent, rfl, rfl, rfl⟩⟩

theorem leadsTo_of_open {path : String} {request : Request} {n : ℕ} (hwrite : request.write = true)
    (h : fs.open_ path request = .ok (.node n, gs)) : gs.LeadsTo path n := by
  obtain ⟨hdir, ⟨parent, node, hlocated, hnode, -, hreadable, hwritable, rfl⟩ |
    ⟨name, parent, hlocated, rfl, rfl⟩⟩ := open_cases h
  · have hleads : fs.LeadsTo path n :=
      ⟨⟨parent, hlocated⟩, hdir, node, hnode, hreadable, hwritable hwrite⟩
    split_ifs
    · exact hleads.setContent []
    · exact hleads
  · exact ⟨⟨parent, locate_vacant rfl rfl hlocated⟩, hdir, {}, by simp, rfl, rfl⟩

/-- What can only be opened for reading is a file with a number: the full device takes any request. -/
theorem exists_node_of_denied {path : String} {e : OsError} {ref : FileRef}
    (hdenied : fs.open_ path {} = .error e) (h : fs.open_ path { write := false } = .ok (ref, gs)) :
    ∃ n, ref = .node n := by
  unfold open_ at hdenied h
  cases hlocated : fs.locate path with
  | error e => simp [hlocated, bind, Except.bind] at h
  | ok place =>
    simp only [hlocated, bind, Except.bind] at hdenied h
    cases place with
    | directory => cases h
    | vacant => cases h
    | file found parent =>
      dsimp only at hdenied h
      split_ifs at hdenied h with hdir
      cases found with
      | node n =>
        cases hnode : fs.node? (.node n) with
        | none => simp [hnode] at h
        | some node =>
          simp only [hnode] at h
          split_ifs at h
          cases h
          exact ⟨n, rfl⟩
      | fullDevice => cases hdenied

theorem contentAt_of_open {path : String} {request : Request} {n : ℕ}
    (hnew : request.exclusive = true ∨ request.truncate = true ∨ fs.contentOf? path = none)
    (h : fs.open_ path request = .ok (.node n, gs)) : gs.contentAt n = [] := by
  obtain ⟨-, ⟨parent, node, hlocated, hnode, hexclusive, hreadable, -, rfl⟩ |
    ⟨name, parent, -, rfl, rfl⟩⟩ := open_cases h
  · rcases hnew with hnew | htruncate | hnone
    · rw [hexclusive] at hnew
      cases hnew
    · rw [if_pos htruncate]
      exact contentAt_setContent _ (List.getElem?_eq_some_iff.mp hnode).1 []
    · simp [contentOf?, hlocated, node?, hnode, hreadable] at hnone
  · simp [contentAt]

theorem mem_names_of_follow {here parent : DirectoryNode} {ref : FileRef} {parts : List String}
    (h : fs.follow here parts = .ok (.file ref parent)) :
    ∃ name n, ref = .node n ∧ (name, n) ∈ fs.names := by
  induction parts generalizing here with
  | nil => cases h
  | cons part rest ih =>
    rw [follow] at h
    split_ifs at h
    · exact ih h
    · exact ih h
    · dsimp only at h
      cases hd : fs.directory? (here.name ++ [part]) with
      | some d =>
        rw [hd] at h
        cases rest with
        | nil => cases h
        | cons => exact ih h
      | none =>
        rw [hd] at h
        cases hl : fs.names.lookup (here.name ++ [part]) with
        | some number =>
          rw [hl] at h
          cases rest with
          | nil =>
            cases h
            obtain ⟨before, after, hnames, -⟩ := List.lookup_eq_some_iff.mp hl
            exact ⟨parent.name ++ [part], number, rfl, by simp [hnames]⟩
          | cons => cases h
        | none =>
          rw [hl] at h
          cases rest <;> cases h

/-- What is a file has a name, or stands where nothing can be removed. -/
theorem mem_names_of_locate {path : String} {parent : DirectoryNode} {ref : FileRef}
    (h : fs.locate path = .ok (.file ref parent)) :
    (∃ name n, ref = .node n ∧ (name, n) ∈ fs.names) ∨ parent.writable = false := by
  unfold locate at h
  split_ifs at h
  · cases h
    exact .inr rfl
  · cases hd : fs.directory? [] with
    | none =>
      rw [hd] at h
      cases h
    | some here =>
      rw [hd] at h
      exact .inl (mem_names_of_follow h)

theorem ne_of_remove {path : String} (h : fs.remove path = .ok gs) : gs ≠ fs := by
  unfold remove at h
  cases hlocated : fs.locate path with
  | error e => simp [hlocated, bind, Except.bind] at h
  | ok place =>
    simp only [hlocated, bind, Except.bind] at h
    cases place with
    | directory =>
      dsimp only at h
      split_ifs at h
    | vacant => cases h
    | file ref parent =>
      dsimp only at h
      split_ifs at h with hdir hwritable
      cases h
      intro hsame
      have hnames := congrArg FileSystem.names hsame
      rw [List.filter_eq_self] at hnames
      rcases mem_names_of_locate hlocated with ⟨name, n, rfl, hmem⟩ | hprotected
      · simpa using hnames _ hmem
      · simp [hprotected] at hwritable

end DataTransfer.FileSystem
