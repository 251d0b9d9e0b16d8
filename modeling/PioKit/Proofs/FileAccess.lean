import PioKit.FileTree
import PioKit.Proofs.Refusal

/-!
# What writing a file changes

A path can be written if it leads through directories to a name that no directory has (`CanCreate`).
Then the tree changes at the place of the path and nowhere else, and the same path reads what was
written: `read_of_write`. The way to the place goes through directories only, and where a file is put
there was none, so the way is still there afterwards (`locate_put`).
-/

namespace PioKit.FileTree

variable {tree : FileTree} {path name : String} {here there place : Location} {bytes : List UInt8}

/-! ## Finding the place of a path -/

theorem enter_eq_ok_iff :
    tree.enter here name = .ok there ↔
      name = "." ∧ there = here ∨
      name ≠ "." ∧ name = ".." ∧ there = here.dropLast ∨
      name ≠ "." ∧ name ≠ ".." ∧ name.utf8ByteSize ≤ Location.nameLimit ∧
        tree.node? (here ++ [name]) = some .directory ∧ there = here ++ [name] := by
  unfold enter
  by_cases hdot : name = "."
  · simp [hdot, eq_comm]
  by_cases hdots : name = ".."
  · simp [hdots, eq_comm]
  simp only [hdot, hdots, if_false, false_and, ne_eq, not_false_eq_true, true_and, false_or]
  rw [bind_eq_ok_iff]
  constructor
  · rintro ⟨node, hchild, hnode⟩
    unfold child? at hchild
    split at hchild
    · cases hchild
    · next hlimit =>
      cases hchild
      split at hnode
      · next hdirectory =>
        cases hnode
        exact ⟨Nat.le_of_not_lt hlimit, hdirectory, rfl⟩
      · cases hnode
      · cases hnode
  · rintro ⟨hlimit, hdirectory, rfl⟩
    refine ⟨some .directory, ?_, rfl⟩
    rw [child?, if_neg (Nat.not_lt.mpr hlimit), hdirectory]

/-- A name that is entered is followed. -/
theorem follow_of_enter (h : tree.enter here name = .ok there) : here.follow [name] = there := by
  rcases enter_eq_ok_iff.mp h with ⟨rfl, rfl⟩ | ⟨hdot, rfl, rfl⟩ | ⟨hdot, hdots, -, -, rfl⟩
  · rfl
  · rfl
  · simp [Location.follow, hdot, hdots]

theorem follow_append (place : Location) (front back : List String) :
    place.follow (front ++ back) = (place.follow front).follow back :=
  List.foldl_append

theorem follow_of_foldlM {names : List String} (h : names.foldlM tree.enter here = .ok there) :
    here.follow names = there := by
  induction names generalizing here with
  | nil =>
    cases h
    rfl
  | cons name names ih =>
    rw [List.foldlM_cons, bind_eq_ok_iff] at h
    obtain ⟨next, hnext, h⟩ := h
    rw [← List.singleton_append, follow_append, follow_of_enter hnext, ih h]

theorem locate_eq_some_iff :
    tree.locate path = .ok (some (here, name)) ↔
      path.utf8ByteSize ≤ Location.pathLimit ∧ ∃ front, Location.namesOf path = front ++ [name] ∧
        front.foldlM tree.enter (tree.origin path) = .ok here ∧ name ≠ "." ∧ name ≠ ".." := by
  unfold locate
  by_cases hlimit : Location.pathLimit < path.utf8ByteSize
  · simp [hlimit, Nat.not_le.mpr hlimit]
  rw [if_neg hlimit]
  rcases List.eq_nil_or_concat (Location.namesOf path) with hnil | ⟨front, last, hlast⟩
  · simp [hnil]
  rw [List.concat_eq_append] at hlast
  rw [hlast, List.reverse_append, List.reverse_singleton, List.singleton_append]
  show (front.reverse.reverse.foldlM tree.enter (tree.origin path) >>= _) = _ ↔ _
  rw [List.reverse_reverse, bind_eq_ok_iff]
  constructor
  · rintro ⟨directory, hfold, hname⟩
    by_cases hdots : last = "." ∨ last = ".."
    · simp [hdots, pure, Except.pure] at hname
    · rw [if_neg hdots] at hname
      cases hname
      rw [not_or] at hdots
      exact ⟨Nat.le_of_not_lt hlimit, front, rfl, hfold, hdots⟩
  · rintro ⟨-, front', hfront, hfold, hdot, hdots⟩
    obtain ⟨rfl, hlast⟩ := List.append_inj' hfront rfl
    cases hlast
    exact ⟨here, hfold, by simp [hdot, hdots, pure, Except.pure]⟩

/-- The place that a path is located at is the one that it names. -/
theorem placeOf_of_locate (h : tree.locate path = .ok (some (here, name))) :
    tree.placeOf path = here ++ [name] := by
  obtain ⟨-, front, hnames, hfold, hdot, hdots⟩ := locate_eq_some_iff.mp h
  rw [placeOf, hnames, follow_append, follow_of_foldlM hfold]
  simp [Location.follow, hdot, hdots]

/-! ## The tree after writing -/

theorem enter_put (hplace : tree.node? place ≠ some .directory) (node : Node)
    (h : tree.enter here name = .ok there) : (tree.put place node).enter here name = .ok there := by
  rw [enter_eq_ok_iff] at h ⊢
  rcases h with h | h | ⟨hdot, hdots, hlimit, hdirectory, hthere⟩
  · exact .inl h
  · exact .inr (.inl h)
  · have hne : here ++ [name] ≠ place := by
      rintro rfl
      exact hplace hdirectory
    rw [← node?_put_of_ne hne tree node] at hdirectory
    exact .inr (.inr ⟨hdot, hdots, hlimit, hdirectory, hthere⟩)

theorem foldlM_enter_put (hplace : tree.node? place ≠ some .directory) (node : Node)
    {names : List String} (h : names.foldlM tree.enter here = .ok there) :
    names.foldlM (tree.put place node).enter here = .ok there := by
  induction names generalizing here with
  | nil => exact h
  | cons name names ih =>
    rw [List.foldlM_cons, bind_eq_ok_iff] at h
    obtain ⟨next, hnext, h⟩ := h
    rw [List.foldlM_cons, bind_eq_ok_iff]
    exact ⟨next, enter_put hplace node hnext, ih h⟩

/-- A path is still located where it was after something is put where no directory is. -/
theorem locate_put (hplace : tree.node? place ≠ some .directory) (node : Node)
    (h : tree.locate path = .ok (some (here, name))) :
    (tree.put place node).locate path = .ok (some (here, name)) := by
  obtain ⟨hlimit, front, hnames, hfold, hdots⟩ := locate_eq_some_iff.mp h
  exact locate_eq_some_iff.mpr ⟨hlimit, front, hnames, foldlM_enter_put hplace node hfold, hdots⟩

/-- The path leads through directories to a name that no directory has. -/
def CanCreate (tree : FileTree) (path : String) : Prop :=
  ∃ here name, tree.locate path = .ok (some (here, name)) ∧ Location.endsInSlash path = false ∧
    name.utf8ByteSize ≤ Location.nameLimit ∧ tree.node? (here ++ [name]) ≠ some .directory

/-- A path is written exactly if it can be, and then a file is put at its place. -/
theorem write_eq_ok_iff {tree' : FileTree} :
    tree.write path bytes = .ok tree' ↔
      tree.CanCreate path ∧ tree' = tree.put (tree.placeOf path) (.file bytes) := by
  unfold write
  rw [bind_eq_ok_iff]
  constructor
  · rintro ⟨location, hlocate, h⟩
    cases location with
    | none => cases h
    | some location =>
      obtain ⟨here, name⟩ := location
      by_cases hslash : Location.endsInSlash path = true
      · simp only [hslash, if_true] at h
        cases h
      simp only [hslash] at h
      obtain ⟨node, hchild, h⟩ := bind_eq_ok_iff.mp h
      unfold child? at hchild
      split at hchild
      · cases hchild
      next hlimit =>
      cases hchild
      split at h
      · cases h
      next hdirectory =>
      cases h
      rw [placeOf_of_locate hlocate]
      exact ⟨⟨here, name, hlocate, eq_false_of_ne_true hslash, Nat.le_of_not_lt hlimit, hdirectory⟩,
        rfl⟩
  · rintro ⟨⟨here, name, hlocate, hslash, hlimit, hdirectory⟩, rfl⟩
    refine ⟨some (here, name), hlocate, ?_⟩
    have hchild : tree.child? here name = .ok (tree.node? (here ++ [name])) :=
      if_neg (Nat.not_lt.mpr hlimit)
    rw [placeOf_of_locate hlocate]
    simp only [hslash, hchild]
    cases hnode : tree.node? (here ++ [name]) with
    | none => rfl
    | some node =>
      cases node with
      | file old => rfl
      | directory => exact absurd hnode hdirectory

/-- A path is read exactly if it leads through directories to the name of a file. -/
theorem read_eq_ok_iff :
    tree.read path = .ok bytes ↔
      ∃ here name, tree.locate path = .ok (some (here, name)) ∧ Location.endsInSlash path = false ∧
        name.utf8ByteSize ≤ Location.nameLimit ∧ tree.node? (here ++ [name]) = some (.file bytes) := by
  unfold read
  rw [bind_eq_ok_iff]
  constructor
  · rintro ⟨location, hlocate, h⟩
    cases location with
    | none => cases h
    | some location =>
      obtain ⟨here, name⟩ := location
      obtain ⟨node, hchild, h⟩ := bind_eq_ok_iff.mp h
      unfold child? at hchild
      split at hchild
      · cases hchild
      next hlimit =>
      cases hchild
      split at h
      · cases h
      · cases h
      next bytes' hfile =>
      split at h
      · cases h
      next hslash =>
      cases h
      exact ⟨here, name, hlocate, eq_false_of_ne_true hslash, Nat.le_of_not_lt hlimit, hfile⟩
  · rintro ⟨here, name, hlocate, hslash, hlimit, hfile⟩
    refine ⟨some (here, name), hlocate, ?_⟩
    have hchild : tree.child? here name = .ok (some (.file bytes)) := by
      rw [child?, if_neg (Nat.not_lt.mpr hlimit), hfile]
    show (tree.child? here name >>= _) = _
    rw [hchild]
    show (if Location.endsInSlash path then _ else _) = _
    rw [hslash]
    rfl

/-- What was written is read back under the same path. -/
theorem read_of_write {tree' : FileTree} (h : tree.write path bytes = .ok tree') :
    tree'.read path = .ok bytes := by
  obtain ⟨⟨here, name, hlocate, hslash, hlimit, hdirectory⟩, rfl⟩ := write_eq_ok_iff.mp h
  rw [placeOf_of_locate hlocate, read_eq_ok_iff]
  have hnode := node?_put_self (List.append_ne_nil_of_right_ne_nil here (List.cons_ne_nil name []))
    tree (.file bytes)
  exact ⟨here, name, locate_put hdirectory _ hlocate, hslash, hlimit, hnode⟩

/-- A file at another place reads as before. -/
theorem read_of_write_of_ne {tree' : FileTree} {other : String} {bytes' : List UInt8}
    (h : tree.write path bytes = .ok tree') (hne : tree.placeOf other ≠ tree.placeOf path)
    (hread : tree.read other = .ok bytes') : tree'.read other = .ok bytes' := by
  obtain ⟨⟨here, name, hlocate, -, -, hdirectory⟩, rfl⟩ := write_eq_ok_iff.mp h
  obtain ⟨here', name', hlocate', hslash, hlimit, hfile⟩ := read_eq_ok_iff.mp hread
  rw [placeOf_of_locate hlocate, placeOf_of_locate hlocate'] at hne
  rw [placeOf_of_locate hlocate]
  refine read_eq_ok_iff.mpr ⟨here', name', locate_put hdirectory _ hlocate', hslash, hlimit, ?_⟩
  rw [node?_put_of_ne hne, hfile]

end PioKit.FileTree
