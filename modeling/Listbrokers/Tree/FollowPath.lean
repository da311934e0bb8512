import Listbrokers.Tree.GetListId
import Listbrokers.Tree.Levels
import Listbrokers.Tree.Ranges

/-!
# Following a path

`follow_path` of `usb_listtree.cc`. It looks the components of a path up in the
lists, enters those that are directories, and goes on in the list it has entered.
It may be told where in the list the first component is to be expected. If the
component is not found there, the entire list is searched, and so are all lists
from then on.

The loop goes through the path with iterators. What it follows are the parts of
the path between the slashes (`followPath_components`). Where the names in each
directory are different, it makes no difference where the search is started
(`range_does_not_matter`).
-/

namespace Listbrokers.Tree

open Framework Tiles

/-- The `ListError` codes of realizing a location. -/
inductive LocationError
  | enter (error : EnterError)
  | notFound
  | invalidStrboUrl
  deriving DecidableEq, Repr

/-- `ListError::failed`. -/
def LocationError.failed (error : LocationError) : Bool := error ≠ .enter .ok

/-- `ListItemKind`, as far as there are such items, and the value that `follow_path` starts with. -/
inductive PathItemKind
  | logoutLink
  | storageDevice
  | entry (kind : ListItemKind)
  deriving DecidableEq, Repr

/-- `ListItemKind::is_directory`. -/
def PathItemKind.isDirectory (storageIsDirectory : Bool) : PathItemKind → Bool
  | logoutLink => false
  | storageDevice => storageIsDirectory
  | entry kind => kind = .directory

/-- What the search for a component works on. -/
structure Search where
  found : Bool
  idx : ℕ
  kind : PathItemKind
  deriving DecidableEq, Repr

/-- The function that is applied to the items in the search for a component. -/
def Search.visit (component : String) (search : Search) (name : String) (kind : PathItemKind) : Bool × Search :=
  if name = component then
    (false, { search with
      found := true
      kind := kind })
  else (true, { search with idx := search.idx + 1 })

variable {P R β : Type} [DecidableEq P]

/-- What `follow_path` needs to know about its surroundings: the size of `size_t`, whether storage devices count as
directories, and the answers to its calls of `enter_child`. -/
structure PathSetup (P : Type) where
  tree : UsbSetup P
  sizeBits : ℕ
  storageIsDirectory : Bool
  answers : ℕ → Answers P

/-- What `follow_path` works on, with what `found_item` works on. -/
structure Walk (P R : Type) where
  tree : UsbTree P
  dirListId : ListId
  parentLinkCandidate : ListId × ℕ
  parentLink : ListId × ℕ
  result : R
  /-- How often a child has been entered. -/
  entered : ℕ

section

variable (S : PathSetup P)

/-- Apply a function to the names and kinds of items. A name that does not exist ends the program. -/
def forEachNamed {α : Type} (items : FlatList α) (first count : ℕ) (name : α → Except Fault String)
    (kind : α → PathItemKind) (callback : β → String → PathItemKind → Bool × β) (b : β) : Except Fault β :=
  forEachItem S.sizeBits items first count (fun b _ item =>
    match b with
    | .error fault => (false, .error fault)
    | .ok b =>
      match name item.data with
      | .error fault => (false, .error fault)
      | .ok name => ((callback b name (kind item.data)).1, .ok (callback b name (kind item.data)).2)) (.ok b)

/-- `USB::ListTree::for_each`, with names and kinds. -/
def UsbTree.forEach (s : UsbTree P) (listId : ListId) (first count : ℕ)
    (callback : β → String → PathItemKind → Bool × β) (b : β) : Except Fault (EnterError × β) :=
  match s.shelf.find listId with
  | none => .ok (.invalidId, b)
  | some p =>
    (EnterError.ok, ·) <$> match s.lists p with
      | .devices items =>
        forEachNamed S items first count (fun device => .ok device.displayName) (fun _ => .storageDevice) callback b
      | .volumes items => forEachNamed S items first count s.getVolumeName (fun _ => .storageDevice) callback b
      | .dir items =>
        forEachNamed S items first count (fun entry => .ok entry.name) (fun entry => .entry entry.kind) callback b

/-- The rounds of the search for a component, with the range for the next component. -/
def lookupComponent (s : UsbTree P) (dirListId : ListId) (autoSearch : Bool) (component : String) (range : ℕ × ℕ) :
    Except Fault (EnterError × Search × (ℕ × ℕ)) := do
  let (error, search) ← s.forEach S dirListId range.1 range.2 (Search.visit component) ⟨false, range.1, .logoutLink⟩
  if search.found = true ∨ autoSearch = false ∨ range = (0, 0) then return (error, search, range)
  else
    let (error, search) ← s.forEach S dirListId 0 0 (Search.visit component) ⟨false, 0, search.kind⟩
    return (error, search, (0, 0))

/-- What is done with the item of a component: whether the loop goes on, and the error. -/
def followFound (foundItem : ListId → ℕ → PathItemKind → R → LocationError × R) (isLastComponent : Bool) (itemId : ℕ)
    (kind : PathItemKind) (w : Walk P R) : Except Fault (Bool × LocationError × Walk P R) := do
  let w := { w with parentLink := w.parentLinkCandidate }
  if kind.isDirectory S.storageIsDirectory then
    let (nextId, error, tree) ← w.tree.enterChild S.tree (S.answers w.entered) w.dirListId itemId
    let w := { w with
      tree := tree
      entered := w.entered + 1 }
    if nextId.isValid = false then return (false, .enter error, w)
    else
      let found := foundItem w.dirListId itemId kind w.result
      return (true, found.1, { w with
        result := found.2
        parentLinkCandidate := if found.1.failed then w.parentLinkCandidate else (w.dirListId, itemId)
        dirListId := nextId })
  else
    let found := foundItem w.dirListId itemId kind w.result
    let error := if !isLastComponent && !found.1.failed then .notFound else found.1
    return (true, error, { w with result := found.2 })

/-- What is done with a component: whether the loop goes on, the error, and the range for the next component. -/
def followComponent (autoSearch : Bool) (foundItem : ListId → ℕ → PathItemKind → R → LocationError × R)
    (component : String) (isLastComponent : Bool) (range : ℕ × ℕ) (w : Walk P R) :
    Except Fault (Bool × LocationError × (ℕ × ℕ) × Walk P R) := do
  let (error, search, range) ← lookupComponent S w.tree w.dirListId autoSearch component range
  if error ≠ .ok then return (false, .enter error, range, w)
  else if search.found = false then return (false, .notFound, range, w)
  else
    -- item IDs have 32 bits
    let (goesOn, error, w) ← followFound S foundItem isLastComponent (search.idx % 2 ^ 32) search.kind w
    return (goesOn, error, range, w)

/-- `std::find_if`, from an index of the path on. -/
def findIf (p : Char → Bool) (path : List Char) (i : ℕ) : ℕ := i + (path.drop i).findIdx p

/-- `std::string::substr`, between two indices. -/
def substr (path : List Char) (start stop : ℕ) : String :=
  String.ofList (if stop ≠ path.length then (path.drop start).take (stop - start) else path.drop start)

/-- The loop of `follow_path`. -/
def followLoop (autoSearch : Bool) (foundItem : ListId → ℕ → PathItemKind → R → LocationError × R) (path : List Char) :
    ℕ → ℕ → ℕ → LocationError → ℕ × ℕ → Walk P R → Except Fault (LocationError × Walk P R)
  | 0, _, _, _, _, _ => .error .endless
  | n + 1, pathIter, componentStart, error, range, w =>
    if error.failed = false ∧ componentStart ≠ path.length ∧ pathIter ≠ path.length then do
      let componentEnd := findIf (· = '/') path (componentStart + 1)
      let component := substr path componentStart componentEnd
      let nextStart := findIf (· ≠ '/') path componentEnd
      let (goesOn, error, range, w) ←
        followComponent S autoSearch foundItem component (nextStart = path.length) range w
      if goesOn then followLoop autoSearch foundItem path n componentEnd nextStart error range w else return (error, w)
    else .ok (error, w)

/-- `follow_path`. -/
def followPath (autoSearch : Bool) (foundItem : ListId → ℕ → PathItemKind → R → LocationError × R) (path : List Char)
    (range : ℕ × ℕ) (w : Walk P R) : Except Fault (LocationError × Walk P R) :=
  if w.dirListId.isValid then
    followLoop S autoSearch foundItem path (path.length + 1) 0 (findIf (· ≠ '/') path 0) (.enter .ok) range w
  else .ok (if path = [] then .enter .ok else .invalidStrboUrl, w)

end

/-! ## The components of a path -/

/-- The parts of a path between its slashes. -/
def components (path : List Char) : List (List Char) := (path.splitOn '/').filter (· ≠ [])

theorem components_nil : components [] = [] := by simp [components]

theorem components_slash (path : List Char) : components ('/' :: path) = components path := by
  have hsplit : ('/' :: path).splitOn '/' = [] :: path.splitOn '/' :=
    List.splitOn_append_cons_self_of_not_mem List.not_mem_nil path
  simp [components, hsplit]

theorem components_dropWhile (path : List Char) : components (path.dropWhile (· = '/')) = components path := by
  induction path with
  | nil => rfl
  | cons c path ih =>
    by_cases hc : c = '/'
    · rw [List.dropWhile_cons_of_pos (by simpa using hc), ih, hc, components_slash]
    · rw [List.dropWhile_cons_of_neg (by simpa using hc)]

/-- The first component goes up to the next slash. -/
theorem components_cons {path : List Char} {c : Char} (hc : c ≠ '/') :
    components (c :: path) = (c :: path.takeWhile (· ≠ '/')) :: components (path.dropWhile (· ≠ '/')) := by
  have hfirst : '/' ∉ c :: path.takeWhile (· ≠ '/') := by
    rw [List.mem_cons, not_or]
    refine ⟨hc.symm, fun hmem => ?_⟩
    have hne := List.all_eq_true.mp (List.all_takeWhile (p := (· ≠ '/')) (l := path)) _ hmem
    simp at hne
  have hpath : c :: path = (c :: path.takeWhile (· ≠ '/')) ++ path.dropWhile (· ≠ '/') := by
    rw [List.cons_append, List.takeWhile_append_dropWhile]
  have hhead := List.head?_dropWhile_not (· ≠ '/') path
  rw [hpath]
  generalize hrest : path.dropWhile (· ≠ '/') = rest at hhead ⊢
  cases rest with
  | nil =>
    rw [List.append_nil, components_nil, components, List.splitOn_eq_singleton hfirst]
    simp
  | cons slash rest =>
    obtain rfl : slash = '/' := by simpa using hhead
    rw [components_slash, components, List.splitOn_append_cons_self_of_not_mem hfirst]
    simp [components]

variable {S : PathSetup P} {autoSearch : Bool} {foundItem : ListId → ℕ → PathItemKind → R → LocationError × R}
  {path : List Char}

/-- Follow components, one after the other. -/
def followComponents (S : PathSetup P) (autoSearch : Bool)
    (foundItem : ListId → ℕ → PathItemKind → R → LocationError × R) :
    List (List Char) → LocationError → ℕ × ℕ → Walk P R → Except Fault (LocationError × Walk P R)
  | [], error, _, w => .ok (error, w)
  | component :: rest, error, range, w =>
    if error.failed then .ok (error, w)
    else do
      let (goesOn, error, range, w) ←
        followComponent S autoSearch foundItem (String.ofList component) (rest = []) range w
      if goesOn then followComponents S autoSearch foundItem rest error range w else return (error, w)

theorem drop_findIf (p : Char → Bool) (path : List Char) (i : ℕ) :
    path.drop (findIf p path i) = (path.drop i).dropWhile fun c => !p c := by
  rw [findIf, ← List.drop_drop, List.dropWhile_eq_drop_findIdx_not]
  simp

theorem findIf_le {i : ℕ} (p : Char → Bool) (hi : i ≤ path.length) :
    i ≤ findIf p path i ∧ findIf p path i ≤ path.length := by
  have hle : (path.drop i).findIdx p ≤ path.length - i := List.length_drop ▸ List.findIdx_le_length
  unfold findIf
  omega

theorem substr_eq (path : List Char) (start stop : ℕ) :
    substr path start stop = String.ofList ((path.drop start).take (stop - start)) := by
  unfold substr
  split
  · rfl
  · next hstop =>
    rw [List.take_of_length_le]
    rw [List.length_drop]
    omega

/-- The component at an index is followed by the next slash. -/
theorem substr_findIf {start : ℕ} (h : start < path.length) :
    substr path start (findIf (· = '/') path (start + 1)) =
      String.ofList (path[start] :: (path.drop (start + 1)).takeWhile (· ≠ '/')) := by
  rw [substr_eq, List.drop_eq_getElem_cons h, findIf, List.takeWhile_eq_take_findIdx_not]
  have hlength : start + 1 + (path.drop (start + 1)).findIdx (· = '/') - start =
      (path.drop (start + 1)).findIdx (· = '/') + 1 := by omega
  rw [hlength, List.take_succ_cons]
  simp

theorem components_drop (path : List Char) (i : ℕ) :
    components (path.drop (findIf (· ≠ '/') path i)) = components (path.drop i) := by
  rw [drop_findIf, ← components_dropWhile (path.drop i)]
  simp

/-- The next component starts at the next character that is no slash. -/
theorem components_drop_cons {i : ℕ} (h : findIf (· ≠ '/') path i < path.length) :
    components (path.drop i) = (path[findIf (· ≠ '/') path i] ::
      (path.drop (findIf (· ≠ '/') path i + 1)).takeWhile (· ≠ '/')) ::
        components (path.drop (findIf (· = '/') path (findIf (· ≠ '/') path i + 1))) := by
  have hhead := List.head?_dropWhile_not (fun c => !decide (c ≠ '/')) (path.drop i)
  rw [← drop_findIf, List.drop_eq_getElem_cons h, List.head?_cons] at hhead
  rw [← components_drop, List.drop_eq_getElem_cons h, components_cons (by simpa using hhead), drop_findIf]
  simp

theorem components_drop_eq_nil {i : ℕ} (hi : i ≤ path.length) :
    findIf (· ≠ '/') path i = path.length ↔ components (path.drop i) = [] := by
  constructor
  · intro h
    rw [← components_drop, h, List.drop_length, components_nil]
  · intro h
    by_contra hne
    have hlt := Nat.lt_of_le_of_ne (findIf_le (· ≠ '/') hi).2 hne
    rw [components_drop_cons hlt] at h
    cases h

/-- What the loop has still to follow is what is behind the last component. -/
theorem followLoop_eq {n pathIter : ℕ} (hiter : pathIter ≤ path.length) (hn : path.length - pathIter < n)
    (error : LocationError) (range : ℕ × ℕ) (w : Walk P R) :
    followLoop S autoSearch foundItem path n pathIter (findIf (· ≠ '/') path pathIter) error range w =
      followComponents S autoSearch foundItem (components (path.drop pathIter)) error range w := by
  induction n generalizing pathIter error range w with
  | zero => exact absurd hn (Nat.not_lt_zero _)
  | succ n ih =>
    obtain ⟨hge, hle⟩ := findIf_le (· ≠ '/') hiter
    rw [followLoop]
    by_cases hend : findIf (· ≠ '/') path pathIter = path.length
    · rw [if_neg fun hn => hn.2.1 hend, (components_drop_eq_nil hiter).mp hend]
      rfl
    have hlt := Nat.lt_of_le_of_ne hle hend
    rw [components_drop_cons hlt, followComponents]
    by_cases hfailed : error.failed = true
    · rw [if_neg fun hn => Bool.false_ne_true (hn.1.symm.trans hfailed), if_pos hfailed]
    obtain ⟨hstop, hstop'⟩ := findIf_le (· = '/') hlt
    rw [if_pos ⟨by simpa using hfailed, hend, by omega⟩, if_neg hfailed]
    dsimp only
    rw [substr_findIf hlt]
    simp only [components_drop_eq_nil hstop']
    refine congrArg _ (funext fun r => ?_)
    obtain ⟨goesOn, error, range, w⟩ := r
    dsimp only
    rw [ih hstop' (by omega)]

/-- `follow_path` follows the parts of the path between its slashes, in their order. -/
theorem followPath_components (path : List Char) (range : ℕ × ℕ) {w : Walk P R} (h : w.dirListId.isValid = true) :
    followPath S autoSearch foundItem path range w =
      followComponents S autoSearch foundItem (components path) (.enter .ok) range w := by
  rw [followPath, if_pos h, followLoop_eq (Nat.zero_le _) (by omega), List.drop_zero]

/-! ## The search for a component -/

variable {items : FlatList ItemData} {component : String} {s : UsbTree P} {p : P} {listId : ListId} {range : ℕ × ℕ}

/-- Whatever the search has found has the name, and has been found at its index. -/
def Search.Sound (items : FlatList ItemData) (component : String) (search : Search) : Prop :=
  search.found = true → ∃ item, items[search.idx % 2 ^ 32]? = some item ∧ item.data.name = component ∧
    search.kind = .entry item.data.kind

/-- The search looks at an item of a directory. -/
def visitItem (component : String) (search : Search) (_ : ℕ) (item : ListItem ItemData) : Bool × Search :=
  search.visit component item.data.name (.entry item.data.kind)

/-- The search in the items of a directory that a range selects. -/
def searchDir (S : PathSetup P) (items : FlatList ItemData) (component : String) (range : ℕ × ℕ)
    (kind : PathItemKind) : Search :=
  forEachItem S.sizeBits items range.1 range.2 (visitItem component) ⟨false, range.1, kind⟩

section

omit [DecidableEq P]

/-- All names exist. -/
theorem forEachNamed_ok {α : Type} (items : FlatList α) (first count : ℕ) (name : α → String) (kind : α → PathItemKind)
    (callback : β → String → PathItemKind → Bool × β) (b : β) :
    forEachNamed S items first count (fun data => .ok (name data)) kind callback b =
      .ok (forEachItem S.sizeBits items first count
        (fun b _ item => callback b (name item.data) (kind item.data)) b) := by
  have haccessed : ∀ left i b, forEachAccessed items (fun (b : Except Fault β) _ item =>
      match b with
      | .error fault => (false, .error fault)
      | .ok b => ((callback b (name item.data) (kind item.data)).1,
          (.ok (callback b (name item.data) (kind item.data)).2 : Except Fault β))) left i (.ok b) =
      .ok (forEachAccessed items (fun b _ item => callback b (name item.data) (kind item.data)) left i b) := by
    intro left
    induction left with
    | zero => exact fun _ _ => rfl
    | succ left ih =>
      intro i b
      rw [forEachAccessed, forEachAccessed]
      split
      · rfl
      · next item _ =>
        dsimp only
        split
        · exact ih _ _
        · rfl
  unfold forEachNamed forEachItem
  dsimp only
  split
  · rfl
  · exact haccessed _ _ _

theorem forEach_dir (hfind : s.shelf.find listId = some p) (hlist : s.lists p = .dir items) (range : ℕ × ℕ)
    (kind : PathItemKind) :
    s.forEach S listId range.1 range.2 (Search.visit component) ⟨false, range.1, kind⟩ =
      .ok (.ok, searchDir S items component range kind) := by
  unfold UsbTree.forEach
  rw [hfind]
  dsimp only
  rw [hlist]
  dsimp only
  rw [forEachNamed_ok]
  rfl

end

/-- The search from an index on, for items that exist. -/
theorem visit_accessed {n i : ℕ} (h : i + n ≤ items.length) {kind : PathItemKind} {search : Search}
    (hsearch : forEachAccessed items (visitItem component) n i ⟨false, i, kind⟩ = search) :
    search.Sound items component ∧ (search.found = false →
      ∀ j, i ≤ j → j < i + n → ∀ item, items[j % 2 ^ 32]? = some item → item.data.name ≠ component) := by
  induction n generalizing i with
  | zero =>
    subst hsearch
    exact ⟨fun hfound => absurd hfound Bool.false_ne_true, fun _ j hj hj' => absurd hj' (by omega)⟩
  | succ n ih =>
    have hle : i % 2 ^ 32 < items.length := Nat.lt_of_le_of_lt (Nat.mod_le _ _) (by omega)
    rw [forEachAccessed, List.getElem?_eq_getElem hle] at hsearch
    dsimp only [visitItem, Search.visit] at hsearch
    by_cases hname : items[i % 2 ^ 32].data.name = component
    · rw [if_pos hname] at hsearch
      subst hsearch
      exact ⟨fun _ => ⟨_, List.getElem?_eq_getElem hle, hname, rfl⟩, fun hnot => absurd hnot.symm Bool.false_ne_true⟩
    · rw [if_neg hname] at hsearch
      obtain ⟨hsound, hall⟩ := ih (i := i + 1) (by omega) hsearch
      refine ⟨hsound, fun hnot j hj hj' item hitem => ?_⟩
      by_cases e : j = i
      · subst e
        rw [List.getElem?_eq_getElem hle] at hitem
        exact Option.some.inj hitem ▸ hname
      · exact hall hnot j (by omega) (by omega) item hitem

section

omit [DecidableEq P]

theorem searchDir_sound (range : ℕ × ℕ) (kind : PathItemKind) :
    (searchDir S items component range kind).Sound items component := by
  unfold searchDir forEachItem
  dsimp only
  split
  · exact nofun
  · have hend := endOfRange_le S.sizeBits range.1 range.2 items.length
    exact (visit_accessed (by omega) rfl).1

/-- The entire list is searched. -/
theorem searchDir_found_iff (kind : PathItemKind) : (searchDir S items component (0, 0) kind).found = true ↔
    ∃ i item, items[i % 2 ^ 32]? = some item ∧ item.data.name = component := by
  constructor
  · intro hfound
    obtain ⟨item, hitem, hname, -⟩ := searchDir_sound (0, 0) kind hfound
    exact ⟨_, item, hitem, hname⟩
  · rintro ⟨i, item, hitem, hname⟩
    by_contra hnot
    have hlt : i % 2 ^ 32 < items.length := (List.getElem?_eq_some_iff.mp hitem).1
    have hsearch : forEachAccessed items (visitItem component) items.length 0 ⟨false, 0, kind⟩ =
        searchDir S items component (0, 0) kind := by
      unfold searchDir forEachItem endOfRange
      rw [if_neg (Nat.lt_irrefl 0), if_neg (by omega)]
      rfl
    refine (visit_accessed (by omega) hsearch).2 (by simpa using hnot) (i % 2 ^ 32) (Nat.zero_le _) (by omega)
      item ?_ hname
    rwa [Nat.mod_mod]

end

/-- Both searches have the same result. -/
def Search.Agrees (search search' : Search) : Prop :=
  search.found = search'.found ∧
    (search.found = true → search.idx % 2 ^ 32 = search'.idx % 2 ^ 32 ∧ search.kind = search'.kind)

/-- Only one item has the name. -/
theorem Search.Sound.agrees {search search' : Search} (hnames : (UsbList.dir items).names.Nodup)
    (h : search.Sound items component) (h' : search'.Sound items component) (hfound : search.found = search'.found) :
    search.Agrees search' := by
  refine ⟨hfound, fun hf => ?_⟩
  obtain ⟨item, hitem, hname, hkind⟩ := h hf
  obtain ⟨item', hitem', hname', hkind'⟩ := h' (hfound ▸ hf)
  obtain ⟨hlt, e⟩ := List.getElem?_eq_some_iff.mp hitem
  have hidx : search.idx % 2 ^ 32 = search'.idx % 2 ^ 32 := by
    have hlength : (UsbList.dir items).names.length = items.length := List.length_map _
    refine (List.getElem?_inj (hlength ▸ hlt) hnames).mp ?_
    simp only [UsbList.names, List.getElem?_map, hitem, hitem', Option.map_some, hname, hname']
  rw [hidx, hitem'] at hitem
  obtain rfl := Option.some.inj hitem
  exact ⟨hidx, hkind.trans hkind'.symm⟩

section

omit [DecidableEq P]

/-- If the item is not in the range, the entire list is searched. -/
theorem lookupComponent_range (hfind : s.shelf.find listId = some p) (hlist : s.lists p = .dir items)
    (component : String) (range : ℕ × ℕ) :
    ∃ search range', lookupComponent S s listId true component range = .ok (.ok, search, range') ∧
      search.Sound items component ∧
        (search.found = true ↔ ∃ i item, items[i % 2 ^ 32]? = some item ∧ item.data.name = component) := by
  unfold lookupComponent
  rw [forEach_dir hfind hlist]
  dsimp only [bind, Except.bind, pure, Except.pure]
  split
  · next hstop =>
    refine ⟨_, _, rfl, searchDir_sound range _, ?_⟩
    rcases hstop with hfound | hauto | rfl
    · obtain ⟨item, hitem, hname, -⟩ := searchDir_sound range _ hfound
      exact iff_of_true hfound ⟨_, item, hitem, hname⟩
    · cases hauto
    · exact searchDir_found_iff _
  · rw [forEach_dir hfind hlist (0, 0)]
    exact ⟨_, _, rfl, searchDir_sound (0, 0) _, searchDir_found_iff _⟩

/-- Without range, the entire list is searched once. -/
theorem lookupComponent_entire (hfind : s.shelf.find listId = some p) (hlist : s.lists p = .dir items) :
    lookupComponent S s listId false component (0, 0) =
      .ok (.ok, searchDir S items component (0, 0) .logoutLink, (0, 0)) := by
  unfold lookupComponent
  rw [forEach_dir hfind hlist (0, 0)]
  exact if_pos (.inr (.inl rfl))

/-- Nothing is found in a list that is not cached. -/
theorem lookupComponent_gone (hfind : s.shelf.find listId = none) (autoSearch : Bool) (component : String)
    (range : ℕ × ℕ) :
    ∃ search range', lookupComponent S s listId autoSearch component range = .ok (.invalidId, search, range') ∧
      (range = (0, 0) → range' = (0, 0)) := by
  have hgone : ∀ first count search, s.forEach S listId first count (Search.visit component) search =
      .ok (.invalidId, search) :=
    fun _ _ _ => by rw [UsbTree.forEach, hfind]
  unfold lookupComponent
  rw [hgone]
  dsimp only [bind, Except.bind, pure, Except.pure]
  split
  · exact ⟨_, _, rfl, id⟩
  · rw [hgone]
    exact ⟨_, _, rfl, fun _ => rfl⟩

end

/-! ## Following a path, wherever the search is started -/

variable {X X' : Set P} {w : Walk P R} {isLastComponent : Bool}

/-- The walk is in a directory of a tree in which the names in each directory are different. -/
structure Walk.Ready (S : PathSetup P) (w : Walk P R) : Prop where
  sound : ∃ X, w.tree.Sound S.tree X
  levelled : w.tree.Levelled S.tree
  distinct : w.tree.DistinctNames
  dir : ∀ p ∈ w.tree.shelf.find w.dirListId, (w.tree.lists p).kind = .dir

/-- What is entered in a directory is a directory. -/
theorem UsbTree.Sound.enterChild_dir {T : UsbSetup P} {a : Answers P} {s' : UsbTree P} {id : ListId}
    {error : EnterError} {item : ℕ} (h : s.Sound T X) (h' : s'.Sound T X') (hlevelled : s'.Levelled T)
    (hdir : ∀ this ∈ s.shelf.find listId, (s.lists this).kind = .dir)
    (hr : s.enterChild T a listId item = .ok (id, error, s')) (hvalid : id.isValid = true) :
    ∀ q ∈ s'.shelf.find id, (s'.lists q).kind = .dir := fun q hq => by
  obtain ⟨this, hthis, p, hp, rfl, hpar⟩ := h.enterChild_valid hr hvalid
  obtain rfl : p = q := Option.some.inj ((h'.booked.labelled.find_id hp).symm.trans hq)
  have hkind := h.enterChild_kind hthis hr
  rw [hlevelled p hp this hpar, hkind, hdir this hthis]
  rfl

theorem Walk.Ready.followFound (h : w.Ready S) (hanswers : ∀ n, (S.answers n).DistinctNames) {itemId : ℕ}
    {kind : PathItemKind} {r : Bool × LocationError × Walk P R}
    (hr : followFound S foundItem isLastComponent itemId kind w = .ok r) (hgoesOn : r.1 = true) : r.2.2.Ready S := by
  unfold Tree.followFound at hr
  dsimp only at hr
  split at hr
  · obtain ⟨⟨nextId, error, tree⟩, henter, hr⟩ := bind_eq_ok hr
    dsimp only at hr
    split at hr
    · cases hr
      cases hgoesOn
    · next hvalid =>
      cases hr
      obtain ⟨X, hsound⟩ := h.sound
      have hstep : w.tree.Step S.tree (.enterChild w.dirListId itemId, S.answers w.entered) tree := by
        change (·.2.2) <$> w.tree.enterChild S.tree (S.answers w.entered) w.dirListId itemId = .ok tree
        rw [henter]
        rfl
      obtain ⟨X', hsound', -⟩ := hsound.step hstep
      have hlevelled := UsbTree.step_levelled h.levelled hstep
      exact ⟨⟨X', hsound'⟩, hlevelled, UsbTree.step_distinct h.distinct (hanswers _) hstep,
        hsound.enterChild_dir hsound' hlevelled h.dir henter (by simpa using hvalid)⟩
  · cases hr
    exact ⟨h.sound, h.levelled, h.distinct, h.dir⟩

/-- A component is followed in the same way, but for the range for the next one. -/
theorem Walk.Ready.followComponent (h : w.Ready S) (hanswers : ∀ n, (S.answers n).DistinctNames)
    (foundItem : ListId → ℕ → PathItemKind → R → LocationError × R) (component : String) (isLastComponent : Bool)
    (range : ℕ × ℕ) :
    ∃ (x : Except Fault (Bool × LocationError × Walk P R)) (range' : ℕ × ℕ),
      followComponent S true foundItem component isLastComponent range w =
        (fun r => (r.1, r.2.1, range', r.2.2)) <$> x ∧
      followComponent S false foundItem component isLastComponent (0, 0) w =
        (fun r => (r.1, r.2.1, (0, 0), r.2.2)) <$> x ∧
      ∀ r, x = .ok r → r.1 = true → r.2.2.Ready S := by
  unfold Tree.followComponent
  cases hfind : w.tree.shelf.find w.dirListId with
  | none =>
    obtain ⟨search, range', hlookup, -⟩ := lookupComponent_gone (S := S) hfind true component range
    obtain ⟨search', range'', hlookup', hrange⟩ := lookupComponent_gone (S := S) hfind false component (0, 0)
    obtain rfl := hrange rfl
    rw [hlookup, hlookup']
    exact ⟨.ok (false, .enter .invalidId, w), range', rfl, rfl, fun r hr => by cases hr; nofun⟩
  | some p =>
    have hkind := h.dir p hfind
    cases hlist : w.tree.lists p with
    | devices items => rw [hlist] at hkind; cases hkind
    | volumes items => rw [hlist] at hkind; cases hkind
    | dir items =>
      obtain ⟨search, range', hlookup, hsound, hfound⟩ := lookupComponent_range (S := S) hfind hlist component range
      have hnames : (UsbList.dir items).names.Nodup := hlist ▸ h.distinct p
      have hagrees := hsound.agrees hnames (searchDir_sound (S := S) (0, 0) .logoutLink)
        (Bool.eq_iff_iff.mpr (hfound.trans (searchDir_found_iff .logoutLink).symm))
      rw [hlookup, lookupComponent_entire hfind hlist]
      generalize searchDir S items component (0, 0) .logoutLink = search' at hagrees
      dsimp only [bind, Except.bind, pure, Except.pure]
      rw [if_neg (not_not_intro rfl), if_neg (not_not_intro rfl), ← hagrees.1]
      by_cases hfalse : search.found = false
      · rw [if_pos hfalse, if_pos hfalse]
        exact ⟨.ok (false, .notFound, w), range', rfl, rfl, fun r hr => by cases hr; nofun⟩
      · rw [if_neg hfalse, if_neg hfalse]
        obtain ⟨hidx, hkind⟩ := hagrees.2 (by simpa using hfalse)
        rw [hidx, hkind]
        exact ⟨Tree.followFound S foundItem isLastComponent (search'.idx % 2 ^ 32) search'.kind w, range', rfl, rfl,
          fun r hr => h.followFound hanswers hr⟩

theorem Walk.Ready.followComponents (h : w.Ready S) (hanswers : ∀ n, (S.answers n).DistinctNames)
    (path : List (List Char)) (error : LocationError) (range : ℕ × ℕ) :
    followComponents S true foundItem path error range w = followComponents S false foundItem path error (0, 0) w := by
  induction path generalizing error range w with
  | nil => rfl
  | cons component rest ih =>
    rw [Tree.followComponents, Tree.followComponents]
    split
    · rfl
    · obtain ⟨x, range', hx, hx', hready⟩ :=
        h.followComponent hanswers foundItem (String.ofList component) (rest = []) range
      rw [hx, hx']
      cases x with
      | error fault => rfl
      | ok r =>
        obtain ⟨goesOn, error, w⟩ := r
        cases goesOn with
        | false => rfl
        | true => exact ih (hready _ rfl rfl) error range'

/-- In every run, for every path from a directory on, and for every range in which the first item is expected, such
as the position in a reference key: if the entire list is searched where the item is not in the range, everything is
the same as if all lists were searched entirely; and the components that are followed are the parts of the path
between its slashes. -/
theorem range_does_not_matter {rootId : ListId} (hvalid : rootId.isValid = true)
    (hcacheable : rootId.nocacheBit = false) {devices : List (ℕ × String × String)} {volumes : List (ℕ × VolumeInfo)}
    {calls : List (UsbCall × Answers P)}
    (h : Run (UsbTree.Step S.tree) (UsbTree.init S.tree rootId devices volumes) calls w.tree)
    (hdistinct : w.tree.DistinctNames) (hanswers : ∀ n, (S.answers n).DistinctNames)
    (hdir : ∀ p ∈ w.tree.shelf.find w.dirListId, (w.tree.lists p).kind = .dir)
    (foundItem : ListId → ℕ → PathItemKind → R → LocationError × R) (path : List Char) (range : ℕ × ℕ) :
    followPath S true foundItem path range w = followPath S false foundItem path (0, 0) w ∧
      (w.dirListId.isValid = true → ∀ autoSearch, followPath S autoSearch foundItem path range w =
        followComponents S autoSearch foundItem (components path) (.enter .ok) range w) := by
  have hready : w.Ready S :=
    ⟨(UsbTree.sound_init hvalid hcacheable devices volumes).run h, UsbTree.run_levelled h, hdistinct, hdir⟩
  refine ⟨?_, fun hid autoSearch => followPath_components path range hid⟩
  by_cases hid : w.dirListId.isValid = true
  · rw [followPath_components path range hid, followPath_components path (0, 0) hid]
    exact hready.followComponents hanswers _ _ range
  · rw [followPath, followPath, if_neg hid, if_neg hid]

/-- Every directory contains a directory and a file. -/
def examplePaths : PathSetup ℕ where
  tree := UsbTree.exampleSetup
  sizeBits := 64
  storageIsDirectory := true
  answers := fun _ => UsbTree.exampleAnswers (some (3, ⟨5⟩)) .invalid fun _ => some (["albums"], ["song.flac"])

/-- A walk that starts in the directory of a volume, and returns the last item. -/
def exampleWalk (tree : UsbTree ℕ) : Walk ℕ (ListId × ℕ) where
  tree := tree
  dirListId := ⟨4⟩
  parentLinkCandidate := (⟨3⟩, 0)
  parentLink := (⟨2⟩, 0)
  result := (.invalid, 0)
  entered := 0

/-- A file is followed, which is expected far behind the end of the directory. -/
theorem range_does_not_matter_stale : ∃ tree w',
    followPath examplePaths true (fun list item _ _ => (.enter .ok, list, item)) "/albums//song.flac/".toList (7, 1)
      (exampleWalk tree) = .ok (.enter .ok, w') ∧
    w'.dirListId = ⟨5⟩ ∧ w'.parentLink = (⟨4⟩, 0) ∧ w'.result = (⟨5⟩, 1) := by
  obtain ⟨tree, hrun, hs⟩ :=
    UsbTree.run_any (fun _ _ => True) (UsbTree.exampleCalls fun _ => some (["albums"], ["song.flac"]))
    (Q := fun s => (∀ p ∈ s.shelf.find ⟨4⟩, (s.lists p).kind = .dir) ∧
      ((followPath examplePaths false (fun list item _ _ => (.enter .ok, list, item))
        "/albums//song.flac/".toList (0, 0)
        (exampleWalk s)).toOption.any fun r => r.1 = .enter .ok ∧ r.2.dirListId = ⟨5⟩ ∧ r.2.parentLink = (⟨4⟩, 0) ∧
          r.2.result = (⟨5⟩, 1)) = true) (by decide +kernel)
  obtain ⟨hdir, hany⟩ := of_decide_eq_true hs
  obtain ⟨⟨error, w'⟩, hr, hw⟩ := (Option.any_eq_true _ _).mp hany
  obtain ⟨rfl, hid, hlink, hresult⟩ := of_decide_eq_true hw
  have hdistinct : ∀ {a : Answers ℕ}, a.readDir = (fun _ => some (["albums"], ["song.flac"])) → a.DistinctNames := by
    intro a ha path
    rw [ha]
    rintro _ _ ⟨⟩
    decide
  have htree := UsbTree.run_distinct (hrun.of_when.when_of_forall fun call hcall => hdistinct (by
    revert call
    simp [UsbTree.exampleCalls, UsbTree.exampleAnswers]))
  refine ⟨tree, w', ?_, hid, hlink, hresult⟩
  have hsame := range_does_not_matter (S := examplePaths) (w := exampleWalk tree) (by decide) (by decide) hrun.of_when
    htree (fun _ => hdistinct rfl) hdir (fun list item _ _ => (.enter .ok, list, item))
      "/albums//song.flac/".toList (7, 1)
  rw [hsame.1]
  exact ok_of_toOption hr

end Listbrokers.Tree
