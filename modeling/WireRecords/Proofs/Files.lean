import Mathlib.Data.List.Infix
import WireRecords.Files

/-!
# Writing changes one file

A write puts bytes at one place. Directories stay what they are, since the directory of that place
exists before, so every path leads where it led before, unless it leads to the place itself.
-/
namespace WireRecords

/-! ### Texts as bytes -/

theorem byteArray_toList_loop (bytes : ByteArray) (i : Nat) (seen : List UInt8) :
    ByteArray.toList.loop bytes i seen = seen.reverse ++ bytes.data.toList.drop i := by
  fun_induction ByteArray.toList.loop bytes i seen with
  | case1 i seen hi ih =>
    have hlen : i < bytes.data.toList.length := by simpa using hi
    have hget : bytes.get! i = bytes.data.toList[i] := by
      rw [ByteArray.get!, Array.getElem_toList]
      exact getElem!_pos bytes.data i hi
    rw [ih, List.drop_eq_getElem_cons hlen, hget]
    simp
  | case2 i seen hi =>
    have hlen : bytes.data.toList.length ≤ i := by simpa using hi
    simp [List.drop_eq_nil_of_le hlen]

theorem bytesOfText_eq (text : String) :
    bytesOfText text = text.toList.flatMap String.utf8EncodeChar := by
  have hdata : text.toUTF8 = (text.toList.flatMap String.utf8EncodeChar).toByteArray := by
    rw [String.toUTF8_eq_toByteArray, ← String.utf8Encode_toList]
    rfl
  rw [bytesOfText, hdata, ByteArray.toList, byteArray_toList_loop]
  simp

theorem textOfBytes_bytesOfText (text : String) : textOfBytes (bytesOfText text) = .ok text := by
  have hbytes : (⟨(bytesOfText text).toArray⟩ : ByteArray) = text.toUTF8 := by
    rw [bytesOfText, ByteArray.toList, byteArray_toList_loop]
    simp
  rw [textOfBytes, hbytes]
  simp only [String.fromUTF8?, text.isValidUTF8, String.toUTF8_eq_toByteArray]
  rfl

theorem Path.check_eq_ok {path : String} (hnull : '\x00' ∉ path.toList) (hne : path ≠ "")
    (hlen : path.utf8ByteSize ≤ limit) : check path = .ok () := by
  have hany : path.any (· = '\x00') = false := by
    rw [String.any, String.contains_prop_eq]
    exact List.any_eq_false.mpr fun c hc hnul => hnull (of_decide_eq_true hnul ▸ hc)
  simp [check, hany, hne, hlen]

namespace Files

/-! ### Directories -/

/-- A place with files below it, or above everything that is known. -/
def IsDirectory (fs : Files) (place : List String) : Prop :=
  isAbove place = true ∨ ∃ entry ∈ fs.entries, place <+: entry.1

theorem isAbove_mono {place above : List String} (h : isAbove place = true)
    (habove : above <+: place) : isAbove above = true := by
  simp only [isAbove, Bool.or_eq_true, List.all_eq_true, decide_eq_true_eq] at h ⊢
  rcases h with hup | rfl
  · exact Or.inl fun name hname => hup name (habove.subset hname)
  · rcases List.prefix_cons_iff.mp habove with rfl | ⟨rest, rfl, hrest⟩
    · simp
    · simp [List.prefix_nil.mp hrest]

theorem IsDirectory.mono {fs : Files} {place above : List String} (h : fs.IsDirectory place)
    (habove : above <+: place) : fs.IsDirectory above := by
  rcases h with h | ⟨entry, hentry, hplace⟩
  · exact Or.inl (isAbove_mono h habove)
  · exact Or.inr ⟨entry, hentry, habove.trans hplace⟩

theorem IsDirectory.parent {fs : Files} {place : List String} (h : fs.IsDirectory place) :
    fs.IsDirectory (parent place) := by
  rw [Files.parent]
  split_ifs with hroot habove
  · exact h
  · have hup : ∀ name ∈ place, name = ".." := by simpa [isAbove, hroot] using habove
    exact Or.inl (by simpa [isAbove] using Or.inl hup)
  · exact h.mono (List.dropLast_prefix place)

theorem isDirectory_start (fs : Files) (path : String) : fs.IsDirectory (Path.start path) := by
  refine Or.inl ?_
  rw [Path.start]
  split_ifs <;> rfl

theorem node?_eq_file {fs : Files} {place : List String} {bytes : List UInt8} :
    fs.node? place = some (.file bytes) ↔ fs.entries.lookup place = some bytes := by
  rw [node?]
  cases hlookup : fs.entries.lookup place with
  | some old => simp
  | none => simp

theorem node?_eq_directory {fs : Files} {place : List String} :
    fs.node? place = some .directory ↔
      fs.entries.lookup place = none ∧ fs.IsDirectory place := by
  rw [node?]
  cases hlookup : fs.entries.lookup place with
  | some old => simp
  | none => simp [IsDirectory, or_iff_not_imp_left]

/-! ### One file more -/

/-- A file may be put at the place: it lies in a directory and is none itself. -/
structure Admits (fs : Files) (place : List String) : Prop where
  nonempty : place ≠ []
  above : fs.IsDirectory place.dropLast
  notDirectory : fs.node? place ≠ some .directory

theorem lookup_filter_ne {entries : List (List String × List UInt8)} {place p : List String}
    (h : p ≠ place) : (entries.filter (·.1 ≠ place)).lookup p = entries.lookup p := by
  induction entries with
  | nil => rfl
  | cons entry entries ih =>
    obtain ⟨q, bytes⟩ := entry
    by_cases hq : q = place
    · have hne : (p == q) = false := by simp [hq, h]
      rw [List.filter_cons_of_neg (by simp [hq]), ih, List.lookup_cons, hne]
    · rw [List.filter_cons_of_pos (by simp [hq]), List.lookup_cons, List.lookup_cons, ih]

theorem lookup_put (fs : Files) (place p : List String) (bytes : List UInt8) :
    (fs.put place bytes).entries.lookup p =
      if p = place then some bytes else fs.entries.lookup p := by
  rw [put, List.lookup_append]
  split_ifs with hp
  · have hnone : (fs.entries.filter (·.1 ≠ place)).lookup p = none := by
      refine List.lookup_eq_none_iff.mpr fun entry hentry => ?_
      have hother : entry.1 ≠ place := by simpa using (List.mem_filter.mp hentry).2
      simpa [hp] using hother.symm
    rw [hnone, hp, Option.none_or, List.lookup_cons_self]
  · have hlast : [(place, bytes)].lookup p = none := by simp [List.lookup_eq_none_iff, hp]
    rw [lookup_filter_ne hp, hlast, Option.or_none]

section Put

variable {fs : Files} {place p : List String} {bytes : List UInt8}

theorem isDirectory_put (h : fs.Admits place) (hp : p ≠ place) :
    (fs.put place bytes).IsDirectory p ↔ fs.IsDirectory p := by
  constructor
  · rintro (habove | ⟨entry, hentry, hbelow⟩)
    · exact Or.inl habove
    · rcases List.mem_append.mp hentry with hold | hnew
      · exact Or.inr ⟨entry, (List.mem_filter.mp hold).1, hbelow⟩
      · -- A place above the new file is above its directory.
        rw [List.mem_singleton.mp hnew, ← List.dropLast_concat_getLast h.nonempty] at hbelow
        rcases List.prefix_concat_iff.mp hbelow with heq | hbelow
        · exact absurd (heq.trans (List.dropLast_concat_getLast h.nonempty)) hp
        · exact h.above.mono hbelow
  · rintro (habove | ⟨entry, hentry, hbelow⟩)
    · exact Or.inl habove
    · refine Or.inr ?_
      by_cases heq : entry.1 = place
      · exact ⟨(place, bytes), by simp [put], heq ▸ hbelow⟩
      · exact ⟨entry, List.mem_append_left _ (List.mem_filter.mpr ⟨hentry, by simp [heq]⟩), hbelow⟩

@[simp] theorem node?_put_self : (fs.put place bytes).node? place = some (.file bytes) := by
  rw [node?_eq_file, lookup_put, if_pos rfl]

theorem node?_put_ne (h : fs.Admits place) (hp : p ≠ place) (bytes : List UInt8) :
    (fs.put place bytes).node? p = fs.node? p := by
  refine Option.ext fun node => ?_
  cases node with
  | file old => rw [node?_eq_file, node?_eq_file, lookup_put, if_neg hp]
  | directory =>
    rw [node?_eq_directory, node?_eq_directory, lookup_put, if_neg hp, isDirectory_put h hp]

end Put

/-! ### Where paths lead -/

section Resolve

variable {fs : Files} {place directory names : List String} {name : String}

theorem resolve_isDirectory (hplace : fs.IsDirectory place)
    (h : fs.resolve place names = .ok (directory, .directory)) : fs.IsDirectory directory := by
  fun_induction Files.resolve fs place names with
  | case1 place => simp_all
  | case2 place names ih => exact ih hplace h
  | case3 place names ih => exact ih hplace.parent h
  | case4 => simp at h
  | case5 => simp at h
  | case6 place name names _ _ next _ hnode ih => exact ih (node?_eq_directory.mp hnode).2 h
  | case7 => simp at h
  | case8 => simp at h

theorem resolve_append (h : fs.resolve place names = .ok (directory, .directory))
    (more : List String) : fs.resolve place (names ++ more) = fs.resolve directory more := by
  fun_induction Files.resolve fs place names with
  | case1 place =>
    obtain rfl : place = directory := by simpa using h
    rfl
  | case2 place names ih => exact ih h
  | case3 place names ih => exact ih h
  | case4 => simp at h
  | case5 => simp at h
  | case6 place name names hdot hup next hlen hnode ih =>
    rw [← ih h]
    simp [Files.resolve, hlen, hnode, next]
  | case7 => simp at h
  | case8 => simp at h

theorem resolve_put_target {target : List String} {bytes : List UInt8} (hdot : name ≠ ".")
    (hup : name ≠ "..") (hlen : ¬ Path.nameLimit < name.utf8ByteSize)
    (htarget : place ++ [name] = target) (names : List String) :
    (fs.put target bytes).resolve place (name :: names) =
      if names.isEmpty then .ok (target, .file bytes) else .error .notDirectory := by
  simp [Files.resolve, hlen, htarget]

/-- Names lead where they led before, or to the new file. -/
theorem resolve_put {target : List String} (hadmits : fs.Admits target) (bytes : List UInt8)
    (place names : List String) :
    (∀ found, (fs.put target bytes).resolve place names = .ok found ↔
      fs.resolve place names = .ok found) ∨
    (fs.put target bytes).resolve place names = .ok (target, .file bytes) ∧
      ∀ found, fs.resolve place names = .ok found → ∃ old, found = (target, .file old) := by
  fun_induction Files.resolve fs place names with
  | case1 place => exact Or.inl fun found => Iff.rfl
  | case2 place names ih => exact ih
  | case3 place names ih => exact ih
  | case4 place name names hdot hup hlen => exact Or.inl (by simp [Files.resolve, hlen])
  | case5 place name names hdot hup next hlen hnode =>
    by_cases htarget : next = target
    · rw [resolve_put_target hdot hup hlen htarget]
      split_ifs
      · exact Or.inr ⟨rfl, by simp⟩
      · exact Or.inl (by simp)
    · have hsame := (node?_put_ne hadmits htarget bytes).trans hnode
      exact Or.inl (by simp [Files.resolve, hlen, hsame, next])
  | case6 place name names hdot hup next hlen hnode ih =>
    have htarget : next ≠ target := fun heq => hadmits.notDirectory (heq ▸ hnode)
    have hsame := (node?_put_ne hadmits htarget bytes).trans hnode
    have hstep : (fs.put target bytes).resolve place (name :: names) =
        (fs.put target bytes).resolve next names := by simp [Files.resolve, hlen, hsame, next]
    rw [hstep]
    exact ih
  | case7 place name names hdot hup next hlen old hnode hlast =>
    by_cases htarget : next = target
    · rw [resolve_put_target hdot hup hlen htarget, if_pos hlast]
      exact Or.inr ⟨rfl, by simp [htarget]⟩
    · have hsame := (node?_put_ne hadmits htarget bytes).trans hnode
      exact Or.inl (by simp [Files.resolve, hlen, hsame, hlast, next])
  | case8 place name names hdot hup next hlen old hnode hlast =>
    by_cases htarget : next = target
    · rw [resolve_put_target hdot hup hlen htarget, if_neg hlast]
      exact Or.inl (by simp)
    · have hsame := (node?_put_ne hadmits htarget bytes).trans hnode
      exact Or.inl (by simp [Files.resolve, hlen, hsame, hlast, next])

end Resolve

/-! ### Writing -/

section Write

variable {fs after : Files} {path : String} {bytes : List UInt8}

/-- What is found at a path, in terms of where its names lead. -/
theorem find_eq_ok {found : List String × Node} : fs.find path = .ok found ↔
    Path.check path = .ok () ∧ fs.resolve (Path.start path) (Path.names path) = .ok found ∧
      (Path.isDirectory path = true → found.2 = .directory) := by
  rw [find]
  cases hcheck : Path.check path with
  | error e => simp [bind, Except.bind]
  | ok =>
    cases hresolve : fs.resolve (Path.start path) (Path.names path) with
    | error e => simp [bind, Except.bind]
    | ok result =>
      obtain ⟨place, node⟩ := result
      cases node with
      | directory =>
        simp only [bind, Except.bind, Except.ok.injEq, true_and]
        constructor
        · rintro rfl
          exact ⟨rfl, fun _ => rfl⟩
        · exact And.left
      | file old =>
        cases hdir : Path.isDirectory path with
        | false => simp [bind, Except.bind]
        | true =>
          simp only [bind, Except.bind, if_true, reduceCtorEq, Except.ok.injEq, true_and, false_iff]
          rintro ⟨rfl, hnode⟩
          exact Node.noConfusion (hnode trivial)

/-- A path leads where it led before, or to the new file. -/
theorem find_put {target : List String} (hadmits : fs.Admits target) (bytes : List UInt8)
    (path : String) :
    (∀ found, (fs.put target bytes).find path = .ok found ↔ fs.find path = .ok found) ∨
      (fs.put target bytes).find path = .ok (target, .file bytes) := by
  rcases resolve_put hadmits bytes (Path.start path) (Path.names path) with hsame | ⟨hnew, hold⟩
  · exact Or.inl fun found => by rw [find_eq_ok, find_eq_ok, hsame]
  · by_cases hpath : Path.check path = .ok () ∧ Path.isDirectory path = false
    · exact Or.inr (find_eq_ok.mpr ⟨hpath.1, hnew, by simp [hpath.2]⟩)
    · -- The path asks for a directory, which neither the old file is nor the new one.
      have hnone : ∀ content, ¬ (Path.check path = .ok () ∧
          (Path.isDirectory path = true → Node.file content = .directory)) := by
        intro content ⟨hcheck, hdir⟩
        exact Node.noConfusion (hdir (by simpa [hcheck] using hpath))
      refine Or.inl fun found => ?_
      rw [find_eq_ok, find_eq_ok]
      constructor
      · rintro ⟨hcheck, hfound, hdir⟩
        obtain rfl : (target, Node.file bytes) = found := by simpa [hnew] using hfound
        exact absurd ⟨hcheck, hdir⟩ (hnone bytes)
      · rintro ⟨hcheck, hfound, hdir⟩
        obtain ⟨old, rfl⟩ := hold found hfound
        exact absurd ⟨hcheck, hdir⟩ (hnone old)

theorem resolveDirectory_eq_ok {start names directory : List String} :
    fs.resolveDirectory start names = .ok directory ↔
      fs.resolve start names = .ok (directory, .directory) := by
  rw [resolveDirectory]
  cases hresolve : fs.resolve start names with
  | error e => simp [bind, Except.bind]
  | ok result =>
    obtain ⟨place, node⟩ := result
    cases node <;> simp [bind, Except.bind]

/-- The path names a file in a directory that exists, and no directory. -/
structure Destination (fs : Files) (path : String) (directory : List String) (name : String) :
    Prop where
  check : Path.check path = .ok ()
  names : Path.names path = (Path.names path).dropLast ++ [name]
  above : fs.resolve (Path.start path) (Path.names path).dropLast = .ok (directory, .directory)
  notDot : name ≠ "."
  notUp : name ≠ ".."
  short : ¬ Path.nameLimit < name.utf8ByteSize
  file : Path.isDirectory path = false
  notDirectory : fs.node? (directory ++ [name]) ≠ some .directory

theorem write_eq_ok (h : fs.write path bytes = .ok after) : ∃ directory name,
    fs.Destination path directory name ∧ after = fs.put (directory ++ [name]) bytes := by
  simp only [write, bind, Except.bind] at h
  split at h
  · simp at h
  · rename_i hcheck
    split at h
    · simp at h
    · rename_i directory hdirectory
      split at h
      · simp at h
      · simp at h
      · simp at h
      · rename_i name hdot hup hlast
        split_ifs at h with hpath hlen hnode
        exact ⟨directory, name, ⟨hcheck, (List.dropLast_append_getLast? name hlast).symm,
          resolveDirectory_eq_ok.mp hdirectory, hdot, hup, hlen, by simpa using hpath, hnode⟩,
          (Except.ok.inj h).symm⟩

namespace Destination

variable {directory : List String} {name : String}

theorem admits (h : fs.Destination path directory name) : fs.Admits (directory ++ [name]) where
  nonempty := by simp
  above := by
    rw [List.dropLast_concat]
    exact resolve_isDirectory (fs.isDirectory_start path) h.above
  notDirectory := h.notDirectory

/-- Behind the write the path leads to what was written. -/
theorem find_put (h : fs.Destination path directory name) (bytes : List UInt8) :
    (fs.put (directory ++ [name]) bytes).find path =
      .ok (directory ++ [name], .file bytes) := by
  have habove : (fs.put (directory ++ [name]) bytes).resolve (Path.start path)
      (Path.names path).dropLast = .ok (directory, .directory) := by
    rcases resolve_put h.admits bytes (Path.start path) (Path.names path).dropLast with
      hsame | ⟨_, hold⟩
    · exact (hsame _).mpr h.above
    · obtain ⟨old, hfile⟩ := hold _ h.above
      simp at hfile
  refine find_eq_ok.mpr ⟨h.check, ?_, by simp [h.file]⟩
  rw [h.names, resolve_append habove, resolve_put_target h.notDot h.notUp h.short rfl]
  rfl

end Destination

/-- After a write its path leads to the bytes written. Every other path leads to what it led to
before, unless it leads to the same place. -/
theorem write_changes_target (h : fs.write path bytes = .ok after) :
    ∃ target, after.find path = .ok (target, .file bytes) ∧
      ∀ other, (∀ found, after.find other = .ok found ↔ fs.find other = .ok found) ∨
        after.find other = .ok (target, .file bytes) := by
  obtain ⟨directory, name, hdestination, rfl⟩ := write_eq_ok h
  exact ⟨directory ++ [name], hdestination.find_put bytes,
    fun other => find_put hdestination.admits bytes other⟩

end Write

end Files

end WireRecords
