import Mathlib.Data.Char
import Mathlib.Data.List.DropRight
import Mathlib.Data.List.Lex
import Mathlib.Data.Prod.Lex
import Stiles.Types.PathComponents

/-
  The order of paths, and the part of a path below another one (`std::path::Path`).

  Paths are compared by their components. `FilePath.stripPrefix` is `Path::strip_prefix`: it keeps
  the text between the first and the last component that is left.

  * `last_stripPrefix`: what is left of a path ends like the path.
  * `stripPrefix_join`: below a path stands what was joined to it.
-/

namespace Stiles

namespace Component

/-- Kinds in the order of the declaration, and names in their own order. -/
def rank : Component → ℕ ×ₗ List Char
  | .RootDir => toLex (0, [])
  | .CurDir => toLex (1, [])
  | .ParentDir => toLex (2, [])
  | .Normal name => toLex (3, name)

theorem rank_injective : Function.Injective rank := by
  intro component other h
  cases component <;> cases other <;> simp_all [rank]

instance : LinearOrder Component :=
  LinearOrder.lift' rank rank_injective

end Component

namespace FilePath

/-! ## Parts of a path -/

/-- A part between separators that is a component wherever it stands. -/
def isReal (part : List Char) : Bool :=
  part ≠ [] && part ≠ ['.']

/-- The parts of a path that are components wherever they stand. -/
def inner (path : FilePath) : List (List Char) :=
  (path.text.toList.splitOn '/').filter isReal

/-- The component that only the start of a path can be. -/
def lead (path : FilePath) : List Component :=
  if path.isAbsolute then [.RootDir]
  else if path.parts.head? = some ['.'] then [.CurDir]
  else []

theorem components_eq (path : FilePath) :
    path.components = path.lead ++ path.inner.map Component.ofPart := by
  have hinner : path.parts.filter (fun part => part ≠ ['.']) = path.inner := by
    rw [parts, List.filter_filter, inner]
    refine List.filter_congr fun part _ => ?_
    rw [isReal, Bool.and_comm]
  rw [components, Component.ofParts, hinner, lead]
  split
  · rfl
  · split <;> rfl

theorem fileName_eq (path : FilePath) : path.fileName =
    match path.inner.getLast? with
    | some ['.', '.'] => none
    | name => name := by
  have hinner : (path.text.toList.splitOn '/').filter (fun part => part ≠ [] ∧ part ≠ ['.'])
      = path.inner := by
    refine List.filter_congr fun part _ => ?_
    simp [isReal]
  unfold fileName
  exact hinner ▸ rfl

/-- Only the last part counts for the extension. -/
theorem extension_congr {path other : FilePath}
    (h : path.inner.getLast? = other.inner.getLast?) : path.extension = other.extension := by
  rw [extension, extension, fileName_eq, fileName_eq, h]

theorem inner_ne_nil {path : FilePath} {extension : String}
    (h : path.extension = some extension) : path.inner ≠ [] := by
  intro hnone
  rw [FilePath.extension, fileName_eq, hnone] at h
  cases h

theorem inner_join (path : FilePath) {other : FilePath} (h : other.isAbsolute = false) :
    (path.join other).inner = path.inner ++ other.inner := by
  rw [join, h, if_neg Bool.false_ne_true]
  by_cases hend : path.text.toList = [] ∨ path.text.toList.getLast? = some '/'
  · rw [if_pos hend, inner, inner, inner, String.toList_append]
    rcases hend with hnone | hlast
    · rw [hnone]
      rfl
    · obtain ⟨base, hbase⟩ := List.getLast?_eq_some_iff.mp hlast
      have hempty : isReal [] = false := rfl
      rw [hbase, List.append_assoc, List.singleton_append, List.splitOn_append_cons_self,
        List.splitOn_append_cons_self, List.filter_append, List.filter_append, List.splitOn_nil]
      simp [hempty]
  · have htext : (path.text ++ "/" ++ other.text).toList
        = path.text.toList ++ '/' :: other.text.toList := by simp
    rw [if_neg hend, inner, htext, List.splitOn_append_cons_self, List.filter_append]
    rfl

/-! ## Stripping a prefix -/

/-- The parts behind the first components, from the next component on. -/
def dropParts : Nat → List (List Char) → List (List Char)
  | 0, parts => parts.dropWhile fun part => !isReal part
  | _ + 1, [] => []
  | n + 1, part :: rest => if isReal part then dropParts n rest else dropParts (n + 1) rest

/-- The text up to the last part that is a component. -/
def ofRest (rest : List (List Char)) : FilePath :=
  ⟨String.ofList (['/'].intercalate (rest.rdropWhile fun part => !isReal part))⟩

/-- `Path::strip_prefix`. -/
def stripPrefix (path base : FilePath) : Option FilePath :=
  if base.components = [] then some path
  else if base.components.isPrefixOf path.components then
    some (ofRest (dropParts (base.components.length - path.lead.length)
      (path.text.toList.splitOn '/')))
  else none

theorem filter_dropParts (n : Nat) (parts : List (List Char)) :
    (dropParts n parts).filter isReal = (parts.filter isReal).drop n := by
  induction parts generalizing n with
  | nil => cases n <;> rfl
  | cons part rest ih =>
    cases hreal : isReal part with
    | true =>
      rw [List.filter_cons_of_pos hreal]
      cases n with
      | zero =>
        rw [dropParts, List.dropWhile_cons_of_neg (by simp [hreal]), List.filter_cons_of_pos hreal]
        rfl
      | succ n =>
        rw [dropParts, if_pos hreal]
        exact ih n
    | false =>
      rw [List.filter_cons_of_neg (by simp [hreal])]
      cases n with
      | zero =>
        rw [dropParts, List.dropWhile_cons_of_pos (by simp [hreal])]
        have hrest := ih 0
        rwa [dropParts] at hrest
      | succ n =>
        rw [dropParts, if_neg (by simp [hreal])]
        exact ih (n + 1)

theorem dropParts_subset (n : Nat) (parts : List (List Char)) : dropParts n parts ⊆ parts := by
  induction parts generalizing n with
  | nil =>
    cases n with
    | zero => exact List.Subset.refl _
    | succ n => exact List.Subset.refl _
  | cons part rest ih =>
    cases n with
    | zero =>
      unfold dropParts
      exact (List.dropWhile_suffix _).subset
    | succ n =>
      unfold dropParts
      split
      · exact List.subset_cons_of_subset _ (ih n)
      · exact List.subset_cons_of_subset _ (ih (n + 1))

/-- Nothing stands before the first component that is left. -/
theorem head_dropParts {n : Nat} {parts : List (List Char)} {part : List Char}
    (h : (dropParts n parts).head? = some part) : isReal part = true := by
  induction parts generalizing n with
  | nil => cases n <;> cases h
  | cons first rest ih =>
    cases n with
    | zero =>
      unfold dropParts at h
      have hfirst := List.head?_dropWhile_not (fun part => !isReal part) (first :: rest)
      rw [h] at hfirst
      simpa using hfirst
    | succ n =>
      unfold dropParts at h
      split at h
      · exact ih h
      · exact ih h

theorem filter_rdropWhile (rest : List (List Char)) :
    (rest.rdropWhile fun part => !isReal part).filter isReal = rest.filter isReal := by
  induction rest using List.reverseRecOn with
  | nil => rfl
  | append_singleton rest part ih =>
    cases hreal : isReal part with
    | true => rw [List.rdropWhile_concat_neg _ _ _ (by simp [hreal])]
    | false =>
      rw [List.rdropWhile_concat_pos _ _ _ (by simp [hreal]), ih, List.filter_append]
      simp [hreal]

theorem inner_ofRest {rest : List (List Char)} (h : ∀ part ∈ rest, '/' ∉ part) :
    (ofRest rest).inner = rest.filter isReal := by
  rw [← filter_rdropWhile, ofRest, inner, String.toList_ofList]
  by_cases hempty : (rest.rdropWhile fun part => !isReal part) = []
  · rw [hempty]
    rfl
  · rw [List.splitOn_intercalate '/' ?_ hempty]
    exact fun part hpart => h part ((List.rdropWhile_prefix _ _).subset hpart)

theorem ofRest_relative {rest : List (List Char)} (h : ∀ part ∈ rest, '/' ∉ part)
    (hhead : ∀ part, rest.head? = some part → isReal part = true) :
    (ofRest rest).isAbsolute = false := by
  rw [isAbsolute, ofRest, String.toList_ofList, decide_eq_false_iff_not]
  have htrimmed := List.rdropWhile_prefix (fun part => !isReal part) rest
  generalize (rest.rdropWhile fun part => !isReal part) = trimmed at htrimmed
  obtain ⟨dropped, rfl⟩ := htrimmed
  cases trimmed with
  | nil => simp
  | cons part trimmed =>
    have hreal := hhead part rfl
    have hslash := h part List.mem_cons_self
    cases part with
    | nil => cases hreal
    | cons c part =>
      have htext : (['/'].intercalate ((c :: part) :: trimmed)).head? = some c := by
        cases trimmed <;> simp [List.intercalate]
      rw [htext]
      intro hc
      exact hslash (Option.some.inj hc ▸ List.mem_cons_self)

theorem stripPrefix_spec {path base rel : FilePath} (hbase : base.components ≠ [])
    (h : path.stripPrefix base = some rel) :
    base.components <+: path.components ∧ rel.isAbsolute = false ∧
      rel.inner = path.inner.drop (base.components.length - path.lead.length) := by
  rw [stripPrefix, if_neg hbase] at h
  split at h
  · rename_i hprefix
    obtain rfl := Option.some.inj h
    have hslash : ∀ part ∈ dropParts (base.components.length - path.lead.length)
        (path.text.toList.splitOn '/'), '/' ∉ part :=
      fun part hpart => not_mem_of_mem_splitOn (dropParts_subset _ _ hpart)
    refine ⟨List.isPrefixOf_iff_prefix.mp hprefix, ?_, ?_⟩
    · exact ofRest_relative hslash fun part hpart => head_dropParts hpart
    · rw [inner_ofRest hslash, filter_dropParts]
      rfl
  · cases h

/-- What is left of a path ends like the path, unless it is nothing. -/
theorem last_stripPrefix {path base rel : FilePath} (hbase : base.components ≠ [])
    (h : path.stripPrefix base = some rel) (hbelow : ¬path.Same base) :
    rel.inner.getLast? = path.inner.getLast? := by
  obtain ⟨hfront, _, hinner⟩ := stripPrefix_spec hbase h
  have hlonger : base.components.length < path.components.length := by
    refine lt_of_le_of_ne hfront.length_le fun hlength => hbelow ?_
    exact (hfront.eq_of_length hlength).symm
  have hlead : path.lead.length ≤ 1 := by
    unfold lead
    split
    · exact le_refl _
    · split
      · exact le_refl _
      · exact Nat.zero_le _
  have hbase' : 0 < base.components.length := List.length_pos_iff.mpr hbase
  rw [components_eq path, List.length_append, List.length_map] at hlonger
  rw [hinner, List.getLast?_drop, if_neg (by omega)]

/-! ## Names below a path -/

/-- A path with names joined to it, one after the other. -/
def joinAll (path : FilePath) (names : List String) : FilePath :=
  names.foldl (fun path name => path.join ⟨name⟩) path

/-- The relative path of names. -/
def ofNames (names : List String) : FilePath :=
  ⟨String.ofList (['/'].intercalate (names.map String.toList))⟩

/-- The components of names. -/
def normals (names : List String) : List Component :=
  names.map fun name => .Normal name.toList

theorem normals_append (names more : List String) :
    normals (names ++ more) = normals names ++ normals more :=
  List.map_append

theorem normals_injective : Function.Injective normals := by
  refine List.map_injective_iff.mpr fun name other h => ?_
  exact String.toList_inj.mp (Component.Normal.inj h)

theorem joinAll_append (path : FilePath) (names more : List String) :
    path.joinAll (names ++ more) = (path.joinAll names).joinAll more :=
  List.foldl_append

theorem components_joinAll (path : FilePath) {names : List String}
    (h : ∀ name ∈ names, isPlain name = true) :
    (path.joinAll names).components = path.components ++ normals names := by
  induction names generalizing path with
  | nil => exact (List.append_nil _).symm
  | cons name names ih =>
    obtain ⟨hfirst, hrest⟩ := List.forall_mem_cons.mp h
    show ((path.join ⟨name⟩).joinAll names).components = _
    rw [ih _ hrest, components_join path hfirst, List.append_assoc]
    rfl

theorem nil_not_mem_names {names : List String} (h : ∀ name ∈ names, isPlain name = true) :
    [] ∉ names.map String.toList := by
  intro hmem
  obtain ⟨name, hname, hempty⟩ := List.mem_map.mp hmem
  exact (isPlain_iff.mp (h name hname)).1 hempty

theorem isReal_of_plain {name : String} (h : isPlain name = true) : isReal name.toList = true := by
  obtain ⟨hempty, _, hdot, _⟩ := isPlain_iff.mp h
  simp [isReal, hempty, hdot]

theorem parts_ofNames {names : List String} (h : ∀ name ∈ names, isPlain name = true)
    (hne : names ≠ []) :
    (ofNames names).text.toList.splitOn '/' = names.map String.toList := by
  rw [ofNames, String.toList_ofList]
  refine List.splitOn_intercalate '/' ?_ (fun hnil => hne (List.map_eq_nil_iff.mp hnil))
  intro part hpart
  obtain ⟨name, hname, rfl⟩ := List.mem_map.mp hpart
  exact (isPlain_iff.mp (h name hname)).2.1

theorem inner_ofNames {names : List String} (h : ∀ name ∈ names, isPlain name = true)
    (hne : names ≠ []) : (ofNames names).inner = names.map String.toList := by
  rw [inner, parts_ofNames h hne]
  refine List.filter_eq_self.mpr fun part hpart => ?_
  obtain ⟨name, hname, rfl⟩ := List.mem_map.mp hpart
  exact isReal_of_plain (h name hname)

theorem ofNames_concat (names : List String) (name : String) (hne : names ≠ []) :
    (ofNames (names ++ [name])).text = (ofNames names).text ++ "/" ++ name := by
  apply String.toList_inj.mp
  rw [ofNames, ofNames, String.toList_ofList, String.toList_append, String.toList_append,
    String.toList_ofList, List.map_append, List.map_singleton]
  induction names with
  | nil => exact absurd rfl hne
  | cons first names ih =>
    cases names with
    | nil => simp [List.intercalate]
    | cons second names =>
      have hrest := ih (List.cons_ne_nil _ _)
      simp only [List.map_cons, List.cons_append, List.intercalate_cons_cons] at hrest ⊢
      rw [hrest]
      simp

/-- The text of names does not end with a separator. -/
theorem ofNames_last {names : List String} (h : ∀ name ∈ names, isPlain name = true)
    (hne : names ≠ []) : (ofNames names).text.toList ≠ [] ∧
      (ofNames names).text.toList.getLast? ≠ some '/' := by
  have hparts := parts_ofNames h hne
  refine ⟨fun hnil => ?_, fun hlast => ?_⟩
  · rw [hnil, List.splitOn_nil] at hparts
    exact nil_not_mem_names h (hparts ▸ List.mem_singleton_self _)
  · obtain ⟨base, hbase⟩ := List.getLast?_eq_some_iff.mp hlast
    rw [hbase, List.splitOn_append_cons_self, List.splitOn_nil] at hparts
    exact nil_not_mem_names h (hparts ▸ List.mem_append_right _ (List.mem_singleton_self _))

theorem isAbsolute_ofNames {names : List String} (h : ∀ name ∈ names, isPlain name = true)
    (hne : names ≠ []) : (ofNames names).isAbsolute = false := by
  have hparts := parts_ofNames h hne
  rw [isAbsolute, decide_eq_false_iff_not]
  intro hhead
  obtain ⟨rest, hrest⟩ := List.head?_eq_some_iff.mp hhead
  rw [hrest, ← List.nil_append ('/' :: rest), List.splitOn_append_cons_self, List.splitOn_nil]
    at hparts
  exact nil_not_mem_names h (hparts ▸ List.mem_append_left _ (List.mem_singleton_self _))

/-- Joining names one after the other is joining their relative path. -/
theorem joinAll_eq_join (path : FilePath) {names : List String}
    (h : ∀ name ∈ names, isPlain name = true) (hne : names ≠ []) :
    path.joinAll names = path.join (ofNames names) := by
  induction names using List.reverseRecOn with
  | nil => exact absurd rfl hne
  | append_singleton names name ih =>
    have hnames : ∀ other ∈ names, isPlain other = true :=
      fun other hother => h other (List.mem_append_left _ hother)
    have hname : isPlain name = true := h name (List.mem_append_right _ (List.mem_singleton_self _))
    rw [joinAll_append]
    by_cases hnil : names = []
    · rw [hnil]
      show path.join ⟨name⟩ = path.join ⟨String.ofList (['/'].intercalate [name.toList])⟩
      simp [List.intercalate]
    · have hall : ∀ other ∈ names ++ [name], isPlain other = true := h
      obtain ⟨hnonempty, hlast⟩ := ofNames_last hnames hnil
      have hend : ¬((path.join (ofNames names)).text.toList = [] ∨
          (path.join (ofNames names)).text.toList.getLast? = some '/') := by
        obtain ⟨front, hfront⟩ : ∃ front, (path.join (ofNames names)).text.toList
            = front ++ (ofNames names).text.toList := by
          rw [join, isAbsolute_ofNames hnames hnil, if_neg Bool.false_ne_true]
          split
          · exact ⟨path.text.toList, String.toList_append⟩
          · exact ⟨path.text.toList ++ ['/'], by simp⟩
        rw [hfront, List.getLast?_append, Option.or_of_isSome (List.getLast?_isSome.mpr hnonempty)]
        simp [hnonempty, hlast]
      rw [ih hnames hnil]
      show (path.join (ofNames names)).join ⟨name⟩ = path.join (ofNames (names ++ [name]))
      rw [join, not_isAbsolute_of_plain hname, if_neg Bool.false_ne_true, if_neg hend, join, join,
        isAbsolute_ofNames hnames hnil, isAbsolute_ofNames hall hne, if_neg Bool.false_ne_true,
        if_neg Bool.false_ne_true, ofNames_concat names name hnil]
      split
      · simp [String.append_assoc]
      · simp [String.append_assoc]

/-- The parts of a path that was joined to another one. -/
theorem parts_join (path : FilePath) {other : FilePath} (h : other.isAbsolute = false)
    (hne : path.text.toList ≠ []) : ∃ front, front.filter isReal = path.inner ∧
      (path.join other).text.toList.splitOn '/' = front ++ other.text.toList.splitOn '/' := by
  rw [join, h, if_neg Bool.false_ne_true]
  by_cases hlast : path.text.toList.getLast? = some '/'
  · obtain ⟨base, hbase⟩ := List.getLast?_eq_some_iff.mp hlast
    have hempty : isReal [] = false := rfl
    refine ⟨base.splitOn '/', ?_, ?_⟩
    · rw [inner, hbase, List.splitOn_append_cons_self, List.filter_append, List.splitOn_nil]
      simp [hempty]
    · rw [if_pos (Or.inr hlast), String.toList_append, hbase, List.append_assoc,
        List.singleton_append, List.splitOn_append_cons_self]
  · have htext : (path.text ++ "/" ++ other.text).toList
        = path.text.toList ++ '/' :: other.text.toList := by simp
    refine ⟨path.text.toList.splitOn '/', rfl, ?_⟩
    rw [if_neg (not_or.mpr ⟨hne, hlast⟩), htext, List.splitOn_append_cons_self]

theorem dropParts_append (n : Nat) {front parts : List (List Char)}
    (hn : (front.filter isReal).length = n) (hparts : ∀ part ∈ parts, isReal part = true) :
    dropParts n (front ++ parts) = parts := by
  induction front generalizing n with
  | nil =>
    rw [← hn]
    cases parts with
    | nil => rfl
    | cons part parts =>
      exact List.dropWhile_cons_of_neg (by simp [hparts part List.mem_cons_self])
  | cons part front ih =>
    cases hreal : isReal part with
    | true =>
      rw [List.filter_cons_of_pos hreal, List.length_cons] at hn
      rw [← hn, List.cons_append, dropParts, if_pos hreal]
      exact ih _ rfl
    | false =>
      rw [List.filter_cons_of_neg (by simp [hreal])] at hn
      have hrest := ih n hn
      cases n with
      | zero =>
        rw [dropParts] at hrest ⊢
        rw [List.cons_append, List.dropWhile_cons_of_pos (by simp [hreal])]
        exact hrest
      | succ n =>
        rw [List.cons_append, dropParts, if_neg (by simp [hreal])]
        exact hrest

/-- Below a path stands what was joined to it. -/
theorem stripPrefix_joinAll {path : FilePath} (hpath : path.components ≠ []) {names : List String}
    (h : ∀ name ∈ names, isPlain name = true) (hne : names ≠ []) :
    (path.joinAll names).stripPrefix path = some (ofNames names) := by
  have hrelative := isAbsolute_ofNames h hne
  have hcomponents := components_joinAll path h
  have hinner : (path.joinAll names).inner = path.inner ++ names.map String.toList := by
    rw [joinAll_eq_join path h hne, inner_join path hrelative, inner_ofNames h hne]
  have hlead : path.components.length - (path.joinAll names).lead.length = path.inner.length := by
    have hlengths := congrArg List.length hcomponents
    rw [components_eq (path.joinAll names), hinner, List.length_append, List.length_map,
      List.length_append, List.length_map, List.length_append, normals, List.length_map] at hlengths
    have hown := congrArg List.length (components_eq path)
    rw [List.length_append, List.length_map] at hown
    omega
  have htext : path.text.toList ≠ [] := by
    intro hnil
    refine hpath ?_
    rw [components, isAbsolute, parts, hnil]
    rfl
  obtain ⟨front, hfront, hsplit⟩ := parts_join path hrelative htext
  have hreal : ∀ part ∈ names.map String.toList, isReal part = true := by
    intro part hpart
    obtain ⟨name, hname, rfl⟩ := List.mem_map.mp hpart
    exact isReal_of_plain (h name hname)
  have hprefix : path.components.isPrefixOf (path.joinAll names).components = true := by
    rw [List.isPrefixOf_iff_prefix, hcomponents]
    exact List.prefix_append _ _
  have hdropped : dropParts path.inner.length ((path.joinAll names).text.toList.splitOn '/')
      = names.map String.toList := by
    rw [joinAll_eq_join path h hne, hsplit, parts_ofNames h hne]
    exact dropParts_append _ (congrArg List.length hfront) hreal
  rw [stripPrefix, if_neg hpath, if_pos hprefix, hlead, hdropped, ofRest, ofNames]
  have hkept : (names.map String.toList).rdropWhile (fun part => !isReal part)
      = names.map String.toList := by
    refine List.rdropWhile_eq_self_iff.mpr fun hnonempty => ?_
    rw [hreal _ (List.getLast_mem hnonempty)]
    exact Bool.false_ne_true
  rw [hkept]

end FilePath

end Stiles
