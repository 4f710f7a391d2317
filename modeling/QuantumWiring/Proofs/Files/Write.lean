import QuantumWiring.Files.Basic
import QuantumWiring.Proofs.Failure

/-!
# Writing a file

A text goes to a place whose folder is there, and nothing else is touched: what lies above the place
was a folder before and still is, and every other place holds what it held (`overwrites_of_write`).
So the path leads where it led, and there the text is found.
-/

namespace QuantumWiring

namespace Path

theorem parts_ne_nil (cs : List Char) : parts cs ≠ [] := by
  cases cs with
  | nil => simp [parts]
  | cons c rest =>
    unfold parts
    split
    · simp
    · split <;> simp

theorem names_ne_nil (path : String) : names path ≠ [] := by
  simp [names, parts_ne_nil]

end Path

theorem Text.dropTrailing_of_getLast?_ne {c : Char} {cs : List Char} (h : cs.getLast? ≠ some c) :
    dropTrailing c cs = cs := by
  have hhead : cs.reverse.dropWhile (· = c) = cs.reverse := by
    cases hrev : cs.reverse with
    | nil => rfl
    | cons d rest =>
      rw [List.getLast?_eq_head?_reverse, hrev] at h
      exact List.dropWhile_cons_of_neg (by simpa using h)
  unfold dropTrailing
  rw [hhead, List.reverse_reverse]

namespace Files

variable {fs fs' : Files} {here place place' : Place} {path text : String}

/-! ## Folders -/

theorem folder_eq_ok_iff : fs.folder place = .ok () ↔ fs.entry? place = some .folder := by
  unfold folder
  split <;> simp_all

/-- Something is known to be at the place or below it. -/
def Leads (fs : Files) (place : Place) : Prop :=
  place <+: fs.current ∨ ∃ p ∈ fs.entries, place <+: p.1

theorem leads_iff : (place.isPrefixOf fs.current || fs.entries.any (place.isPrefixOf ·.1)) = true ↔
    fs.Leads place := by
  simp [Leads]

theorem leads_of_found {e : Entry} (h : fs.entry? place = some e) : fs.Leads place := by
  unfold entry? at h
  split at h
  · next place' e' hfind =>
    have hplace : place' = place := by simpa using List.find?_some hfind
    exact .inr ⟨_, List.mem_of_find?_eq_some hfind, hplace ▸ List.prefix_refl _⟩
  · split at h
    · next hleads => exact leads_iff.1 hleads
    · cases h

theorem Leads.above (h : fs.Leads place) (hbelow : place' <+: place) : fs.Leads place' :=
  h.imp hbelow.trans fun ⟨p, hp, hplace⟩ => ⟨p, hp, hbelow.trans hplace⟩

/-! ## Walking -/

theorem walk_append (here : Place) (names more : List String) :
    fs.walk here (names ++ more) = fs.walk here names >>= (fs.walk · more) := by
  induction names generalizing here with
  | nil => rfl
  | cons name names ih =>
    simp only [List.cons_append, walk, bind_assoc]
    split
    · rw [ih]
    · split
      · rw [ih]
      · simp only [bind_assoc, ih]

/-- A walk goes the same way where its folders still are folders. -/
theorem walk_of_folders (h : ∀ p, fs.folder p = .ok () → fs'.folder p = .ok ()) {names : List String}
    (hwalk : fs.walk here names = .ok place) : fs'.walk here names = .ok place := by
  induction names generalizing here with
  | nil => exact hwalk
  | cons name names ih =>
    obtain ⟨_, hfolder, hwalk⟩ := bind_eq_ok_iff.1 hwalk
    refine bind_eq_ok_iff.2 ⟨(), h here hfolder, ?_⟩
    split at hwalk
    · next hstay => exact (if_pos hstay).trans (ih hwalk)
    · next hstay =>
      refine (if_neg hstay).trans ?_
      split at hwalk
      · next hup => exact (if_pos hup).trans (ih hwalk)
      · next hup =>
        obtain ⟨_, hname, hwalk⟩ := bind_eq_ok_iff.1 hwalk
        exact (if_neg hup).trans (bind_eq_ok_iff.2 ⟨(), hname, ih hwalk⟩)

/-! ## Writing -/

/-- The text has come to the place and nothing else has changed. -/
structure Overwrites (before after : Files) (place : Place) (text : String) : Prop where
  written : after.entry? place = some (.file text)
  frame : ∀ place', place' ≠ place → after.entry? place' = before.entry? place'

/-- Where a path leads that a text may be written to. -/
structure Target (fs : Files) (path : String) (folder : Place) (name : String) : Prop where
  accepted : acceptPath path = .ok ()
  names : ∃ above, Path.names path = above ++ [name] ∧ fs.walk (fs.origin path) above = .ok folder
  isFolder : fs.folder folder = .ok ()
  isName : name ∉ ["", ".", ".."]
  acceptedName : acceptName name = .ok ()
  notFolder : fs.entry? (folder ++ [name]) ≠ some .folder

theorem exists_target (h : fs.target path = .ok place) :
    ∃ folder name, place = folder ++ [name] ∧ fs.Target path folder name := by
  obtain ⟨_, haccepted, h⟩ := bind_eq_ok_iff.1 h
  obtain ⟨folder, hwalk, h⟩ := bind_eq_ok_iff.1 h
  obtain ⟨_, hfolder, h⟩ := bind_eq_ok_iff.1 h
  dsimp only at h
  split at h
  · cases h
  · next hname =>
    rw [not_or] at hname
    have hdrop : String.ofList (Text.dropTrailing '/' path.toList) = path := by
      rw [Text.dropTrailing_of_getLast?_ne hname.1, String.ofList_toList]
    obtain ⟨above, name, hnames⟩ := (List.eq_nil_or_concat _).resolve_left (Path.names_ne_nil path)
    rw [List.concat_eq_append] at hnames
    simp only [hdrop, hnames, List.dropLast_concat, List.getLastD_concat] at hwalk h hname
    obtain ⟨_, hlength, h⟩ := bind_eq_ok_iff.1 h
    split at h
    · cases h
    · next hentry =>
      obtain rfl := Except.ok.inj h
      exact ⟨folder, name, rfl, haccepted, ⟨above, hnames, hwalk⟩, hfolder, by simpa using hname.2,
        hlength, hentry⟩

/-- Writing to a place overwrites it. -/
theorem overwrites_put {folder : Place} {name : String} (hfolder : fs.folder folder = .ok ())
    (text : String) : Overwrites fs (fs.put (folder ++ [name]) text) (folder ++ [name]) text := by
  refine ⟨by simp [put, entry?], fun place' hne => ?_⟩
  have hfind : (fs.put (folder ++ [name]) text).entries.find? (·.1 = place') =
      fs.entries.find? (·.1 = place') := by
    rw [put, List.find?_cons_of_neg (by simpa using hne.symm), List.find?_filter]
    congr 1
    funext p
    by_cases hp : p.1 = place' <;> simp [hp, hne]
  have hleads : (fs.put (folder ++ [name]) text).Leads place' ↔ fs.Leads place' := by
    constructor
    · rintro (hcurrent | ⟨p, hp, hbelow⟩)
      · exact .inl hcurrent
      · rcases List.mem_cons.1 hp with rfl | hp
        · have habove := (List.prefix_concat_iff.1 hbelow).resolve_left hne
          exact (leads_of_found (folder_eq_ok_iff.1 hfolder)).above habove
        · exact .inr ⟨p, (List.mem_filter.1 hp).1, hbelow⟩
    · rintro (hcurrent | ⟨p, hp, hbelow⟩)
      · exact .inl hcurrent
      · by_cases hplace : p.1 = folder ++ [name]
        · exact .inr ⟨_, List.mem_cons_self, hplace ▸ hbelow⟩
        · exact .inr ⟨p, List.mem_cons_of_mem _ (List.mem_filter.2 ⟨hp, by simpa using hplace⟩),
            hbelow⟩
  unfold entry?
  rw [hfind]
  split
  · rfl
  · rw [Bool.eq_iff_iff.2 (leads_iff.trans (hleads.trans leads_iff.symm))]

theorem Target.folder_put {folder : Place} {name : String} (h : fs.Target path folder name)
    (text : String) (place' : Place) (hplace : fs.folder place' = .ok ()) :
    (fs.put (folder ++ [name]) text).folder place' = .ok () := by
  rw [folder_eq_ok_iff] at hplace ⊢
  have hne : place' ≠ folder ++ [name] := by
    rintro rfl
    exact h.notFolder hplace
  rw [(overwrites_put h.isFolder text).frame place' hne, hplace]

theorem Target.read_put {folder : Place} {name : String} (h : fs.Target path folder name)
    (text : String) : (fs.put (folder ++ [name]) text).read path = .ok text := by
  have hfolders := h.folder_put text
  obtain ⟨above, hnames, hwalk⟩ := h.names
  have hlast : (fs.put (folder ++ [name]) text).walk folder [name] = .ok (folder ++ [name]) := by
    obtain ⟨hempty, hdot, hdots⟩ : name ≠ "" ∧ name ≠ "." ∧ name ≠ ".." := by
      simpa using h.isName
    simp only [walk, hfolders folder h.isFolder, hempty, hdot, hdots, h.acceptedName, or_self,
      if_false, bind, Except.bind]
  have hplace : (fs.put (folder ++ [name]) text).walk (fs.origin path) (Path.names path) =
      .ok (folder ++ [name]) := by
    rw [hnames, walk_append, walk_of_folders hfolders hwalk]
    exact hlast
  have hresolve : (fs.put (folder ++ [name]) text).resolve path = .ok (.file text) := by
    refine bind_eq_ok_iff.2 ⟨(), h.accepted, bind_eq_ok_iff.2 ⟨_, hplace, ?_⟩⟩
    rw [(overwrites_put h.isFolder text).written]
  exact bind_eq_ok_iff.2 ⟨_, hresolve, rfl⟩

/-- A write fails for want of a place only. -/
theorem target_of_write {fault : FileFault} (h : fs.write path text = .error fault) :
    fs.target path = .error fault := by
  rcases bind_eq_error_iff.1 h with htarget | ⟨place, -, hput⟩
  · exact htarget
  · cases hput

/-- **A written file is read back, and no other is touched.** -/
theorem overwrites_of_write (h : fs.write path text = .ok fs') :
    ∃ place, fs.target path = .ok place ∧ Overwrites fs fs' place text ∧
      fs'.read path = .ok text := by
  obtain ⟨place, htarget, h⟩ := bind_eq_ok_iff.1 h
  obtain rfl := Except.ok.inj h
  obtain ⟨folder, name, rfl, hleads⟩ := exists_target htarget
  exact ⟨_, htarget, overwrites_put hleads.isFolder text, hleads.read_put text⟩

end Files

end QuantumWiring
