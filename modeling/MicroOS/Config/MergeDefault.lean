import Mathlib.Data.List.Basic

/-!
The saved settings of `config/config.ts`: `mergeDefault` puts the saved values into the menu of
defaults, `generateConfiguration` writes the header. The merge is written over any two JavaScript
objects, and a list of items is to it an object whose keys are the indices, while the items of a
menu are told apart by their names.

* `mergeItems_eq`: the merge of two lists of items keeps every saved item at its index, and of the
  defaults those behind the end of the saved list;
* `rightItems_iff`: which saved menus are merged right;
* `generateConfiguration_lines`: the header is the text of the lines of a menu;
* `covers_lines`: a menu that has every default once has one line for every default option;
* `mergesWithoutLoss_iff`: both for the menu that `main` writes, with its appended `Syscalls`.
-/

namespace MicroOS

/-- `boolean | number | string`, where `ν` is the type of the numbers. -/
inductive ConfigValue (ν : Type) where
  | boolean (b : Bool)
  | number (n : ν)
  | string (s : String)

/-- `ConfigItem`, whose value is primitive or a `ConfigMenu`. -/
inductive ConfigItem (ν : Type) where
  | option (name : String) (value : ConfigValue ν)
  | menu (name title : String) (items : List (ConfigItem ν))

/-- A menu at the top: its title and its items. -/
structure ConfigMenu (ν : Type) where
  title : String
  items : List (ConfigItem ν)

/-- `Preset`: the value that it has for a name. -/
abbrev Preset (ν : Type) := String → Option (ConfigValue ν)

variable {ν : Type}

namespace ConfigItem

/-- Menus stand inside of menus. -/
theorem induct {P : ConfigItem ν → Prop} (option : ∀ name value, P (.option name value))
    (menu : ∀ name title items, (∀ i ∈ items, P i) → P (.menu name title items))
    (i : ConfigItem ν) : P i :=
  @ConfigItem.rec ν P (fun items => ∀ i ∈ items, P i) option menu (by simp)
    (fun _ _ hhead htail => List.forall_mem_cons.mpr ⟨hhead, htail⟩) i

/-- The name of an item, by which the items of a menu are told apart. -/
def name : ConfigItem ν → String
  | .option name _ => name
  | .menu name _ _ => name

/-- The value is `boolean | number | string`. -/
def IsOption : ConfigItem ν → Prop
  | .option _ _ => True
  | .menu _ _ _ => False

/-- The items of the menu that is the value, if it is one. -/
def items : ConfigItem ν → List (ConfigItem ν)
  | .option _ _ => []
  | .menu _ _ items => items

@[simp] lemma name_option (name : String) (value : ConfigValue ν) :
    (option name value).name = name := rfl

@[simp] lemma name_menu (name title : String) (items : List (ConfigItem ν)) :
    (menu name title items).name = name := rfl

@[simp] lemma items_option (name : String) (value : ConfigValue ν) :
    (option name value).items = [] := rfl

@[simp] lemma items_menu (name title : String) (items : List (ConfigItem ν)) :
    (menu name title items).items = items := rfl

end ConfigItem

open ConfigItem

/-- The items of a name. -/
def named (name : String) (items : List (ConfigItem ν)) : List (ConfigItem ν) :=
  items.filter fun i => i.name = name

/-- The items of a name in two lists, one behind the other. -/
@[simp] lemma named_append (name : String) (xs ys : List (ConfigItem ν)) :
    named name (xs ++ ys) = named name xs ++ named name ys :=
  List.filter_append ..

lemma named_eq_nil {name : String} {items : List (ConfigItem ν)} :
    named name items = [] ↔ ∀ i ∈ items, i.name ≠ name := by
  simp [named, List.filter_eq_nil_iff]

lemma mem_named {name : String} {items : List (ConfigItem ν)} {i : ConfigItem ν} :
    i ∈ named name items ↔ i ∈ items ∧ i.name = name := by
  simp [named]

/-! ### The merge -/

mutual

/-- `mergeDefault` on two items. They have the keys `name` and `value`, and of the given item both
are defined: what it has that is primitive stays, and an object is merged with the default value.
Of a default value that is no menu the loop takes no key, or of a string its indices, which no one
reads in a menu. -/
def mergeItem (d : ConfigItem ν) : ConfigItem ν → ConfigItem ν
  | .option name value => .option name value
  | .menu name title items => .menu name title (mergeItems d.items items)

/-- `mergeDefault` on two arrays, whose keys are the indices. -/
def mergeItems : List (ConfigItem ν) → List (ConfigItem ν) → List (ConfigItem ν)
  | def', [] => def'
  | [], given => given
  | d :: def', g :: given => mergeItem d g :: mergeItems def' given

end

/-- `mergeDefault` on two menus, with `if (!given) return def`. -/
def mergeDefault (def' : ConfigMenu ν) : Option (ConfigMenu ν) → ConfigMenu ν
  | none => def'
  | some given => { given with items := mergeItems def'.items given.items }

/-- Every saved item with the default items that its own are merged with: those of the default at
its index. -/
def paired : List (ConfigItem ν) → List (ConfigItem ν) → List (List (ConfigItem ν) × ConfigItem ν)
  | _, [] => []
  | [], g :: given => ([], g) :: paired [] given
  | d :: def', g :: given => (d.items, g) :: paired def' given

/-- A saved item with its items merged. -/
def mergePair : List (ConfigItem ν) × ConfigItem ν → ConfigItem ν
  | (_, .option name value) => .option name value
  | (def', .menu name title items) => .menu name title (mergeItems def' items)

@[simp] lemma mergeItems_nil (given : List (ConfigItem ν)) : mergeItems [] given = given := by
  cases given <;> rfl

lemma mergeItem_eq (d g : ConfigItem ν) : mergeItem d g = mergePair (d.items, g) := by
  cases g <;> rfl

/-- Where there is no default, the saved item stays. -/
lemma mergePair_nil (g : ConfigItem ν) : mergePair ([], g) = g := by
  cases g with
  | option name value => rfl
  | menu name title items => rw [mergePair, mergeItems_nil]

/-- The saved name is kept. -/
@[simp] lemma mergePair_name (p : List (ConfigItem ν) × ConfigItem ν) :
    (mergePair p).name = p.2.name := by
  obtain ⟨def', g⟩ := p
  cases g <;> rfl

/-- The pairs keep the saved items in their order. -/
lemma paired_snd (def' given : List (ConfigItem ν)) : (paired def' given).map Prod.snd = given := by
  induction given generalizing def' with
  | nil => cases def' <;> rfl
  | cons g given ih => cases def' <;> simp [paired, ih]

/-- **What the merge is**: every saved item stands at its index, and behind the saved list come the
defaults that are left. -/
theorem mergeItems_eq (def' given : List (ConfigItem ν)) :
    mergeItems def' given = (paired def' given).map mergePair ++ def'.drop given.length := by
  induction given generalizing def' with
  | nil => cases def' <;> rfl
  | cons g given ih =>
    cases def' with
    | nil => simpa [paired, mergePair_nil] using ih []
    | cons d def' => simp [mergeItems, paired, mergeItem_eq, ih]

/-- The saved items of a name, each with the default items of its index. -/
def pairedNamed (name : String) (def' given : List (ConfigItem ν)) :
    List (List (ConfigItem ν) × ConfigItem ν) :=
  (paired def' given).filter fun p => p.2.name = name

/-- So do those of a name. -/
lemma pairedNamed_snd (name : String) (def' given : List (ConfigItem ν)) :
    (pairedNamed name def' given).map Prod.snd = named name given := by
  rw [named, ← paired_snd def' given, List.filter_map, paired_snd]
  rfl

/-- The items of a name in the merged list. -/
lemma named_mergeItems (name : String) (def' given : List (ConfigItem ν)) :
    named name (mergeItems def' given) =
      (pairedNamed name def' given).map mergePair ++ named name (def'.drop given.length) := by
  have hname : (fun i : ConfigItem ν => decide (i.name = name)) ∘ mergePair =
      fun p => decide (p.2.name = name) := by
    funext p
    rw [Function.comp_apply, mergePair_name]
  rw [mergeItems_eq, named_append, named, List.filter_map, hname, pairedNamed]

/-! ### Which menus are merged right -/

mutual

/-- What has to be in the merged menu for the default `d`, if `s` was saved under its name: the
saved value, and of a menu the items that are right. -/
def RightItem : ConfigItem ν → ConfigItem ν → ConfigItem ν → Prop
  | .option _ _, s, w => s.IsOption ∧ w = s
  | .menu _ _ items, .menu name title saved, w =>
    ∃ merged, w = .menu name title merged ∧ RightItems items saved merged
  | .menu _ _ items, .option name value, w => items = [] ∧ w = .option name value

/-- **The merge that is asked for**: of every default name there is one item, which is right for
the saved one, or the default itself where none was saved. -/
def RightItems : List (ConfigItem ν) → List (ConfigItem ν) → List (ConfigItem ν) → Prop
  | [], _, _ => True
  | d :: def', saved, merged =>
    (∃ w, named d.name merged = [w] ∧
      ((∃ s ∈ named d.name saved, RightItem d s w) ∨ (named d.name saved = [] ∧ w = d))) ∧
    RightItems def' saved merged

end

mutual

/-- The saved item is of the kind of the default; a menu fits with the default items at the index
of the saved one. -/
def FitsItem : ConfigItem ν → List (ConfigItem ν) × ConfigItem ν → Prop
  | .option _ _, p => p.2.IsOption
  | .menu _ _ items, (atIndex, .menu _ _ saved) => FitsItems items atIndex saved
  | .menu _ _ items, (_, .option _ _) => items = []

/-- **The saved lists that fit the defaults**, where `atIndex` are those that the merge takes:
every default either was saved, once, and no item of its name stands behind the saved ones in
`atIndex`, or it was not, and stands there, once. -/
def FitsItems : List (ConfigItem ν) → List (ConfigItem ν) → List (ConfigItem ν) → Prop
  | [], _, _ => True
  | d :: def', atIndex, saved =>
    ((∃ p, pairedNamed d.name atIndex saved = [p] ∧ FitsItem d p ∧
        named d.name (atIndex.drop saved.length) = []) ∨
      (named d.name saved = [] ∧ named d.name (atIndex.drop saved.length) = [d])) ∧
    FitsItems def' atIndex saved

end

/-- One default, where the merge is right for its own items. -/
lemma rightItem_iff (d : ConfigItem ν)
    (ih : ∀ atIndex saved, RightItems d.items saved (mergeItems atIndex saved) ↔
      FitsItems d.items atIndex saved) (p : List (ConfigItem ν) × ConfigItem ν) :
    RightItem d p.2 (mergePair p) ↔ FitsItem d p := by
  obtain ⟨atIndex, s⟩ := p
  cases d with
  | option name value => cases s <;> simp [RightItem, FitsItem, IsOption, mergePair]
  | menu name title items =>
    cases s with
    | option name value => simp [RightItem, FitsItem, mergePair]
    | menu name title saved => simpa [RightItem, FitsItem, mergePair] using ih atIndex saved

/-- Every item of a list, and the list. -/
lemma rightItems_iff_of_items {items : List (ConfigItem ν)}
    (h : ∀ d ∈ items, ∀ p, RightItem d p.2 (mergePair p) ↔ FitsItem d p)
    (atIndex saved : List (ConfigItem ν)) :
    RightItems items saved (mergeItems atIndex saved) ↔ FitsItems items atIndex saved := by
  induction items with
  | nil => simp [RightItems, FitsItems]
  | cons d items ih =>
    obtain ⟨hd, hitems⟩ := List.forall_mem_cons.mp h
    rw [RightItems, FitsItems, ih hitems, named_mergeItems,
      ← pairedNamed_snd d.name atIndex saved]
    refine and_congr_left fun _ => ?_
    generalize pairedNamed d.name atIndex saved = ps
    generalize named d.name (atIndex.drop saved.length) = left
    cases ps with
    | nil => simp
    | cons p ps =>
      have hright : RightItem d p.2 (mergePair p) ↔ FitsItem d p := hd p
      cases ps with
      | nil =>
        cases left with
        | nil => simpa using hright
        | cons x left => simp
      | cons q ps => simp

/-- An item fits for any default items if the merge is right for it. -/
lemma rightItem_iff_fitsItem (d : ConfigItem ν) :
    ∀ p, RightItem d p.2 (mergePair p) ↔ FitsItem d p := by
  induction d using ConfigItem.induct with
  | option name value => exact rightItem_iff _ (by simp [RightItems, FitsItems])
  | menu name title items ih => exact rightItem_iff _ (rightItems_iff_of_items ih)

/-- **Which saved lists are merged right**, by induction on the defaults. -/
theorem rightItems_iff (def' atIndex saved : List (ConfigItem ν)) :
    RightItems def' saved (mergeItems atIndex saved) ↔ FitsItems def' atIndex saved :=
  rightItems_iff_of_items (fun d _ => rightItem_iff_fitsItem d) atIndex saved

/-! ### The header that is written -/

section Lines

variable [ToString ν]

/-- The line for an option. -/
def optionLine (name : String) : ConfigValue ν → String
  | .boolean true => "#define " ++ name ++ "\n"
  | .boolean false => "// #define " ++ name ++ "\n"
  | .string s => "#define " ++ name ++ " \"" ++ s ++ "\"\n"
  | .number n => "#define " ++ name ++ " " ++ toString n ++ "\n"

/-- The comments around the items of a menu. -/
def menuText (title text : String) : String :=
  "// " ++ title ++ "\n" ++ text ++ "// End " ++ title ++ "\n\n"

mutual

/-- The loop of `generateConfiguration`, one item. The value of the preset comes first, for a menu
too. -/
def generateItem (preset : Preset ν) : ConfigItem ν → String
  | .option name value => optionLine name ((preset name).getD value)
  | .menu name title items =>
    match preset name with
    | some value => optionLine name value
    | none => menuText title (generateItems preset items)

/-- The loop of `generateConfiguration` over the items of a menu. -/
def generateItems (preset : Preset ν) : List (ConfigItem ν) → String
  | [] => ""
  | item :: items => generateItem preset item ++ generateItems preset items

end

/-- `generateConfiguration`; without a preset no name has a value in it. -/
def generateConfiguration (configMenu : ConfigMenu ν) (preset : Preset ν) : String :=
  menuText configMenu.title (generateItems preset configMenu.items)

/-- The lines of a menu, with the path of the option that each is for. -/
abbrev Lines := List (Option (List String) × String)

/-- The lines for the option at a path. -/
def linesFor (path : List String) (lines : Lines) : Lines :=
  lines.filter fun l => l.1 = some path

/-- The lines of a menu, from those of its items. -/
def menuLines (title : String) (lines : Lines) : Lines :=
  (none, "// " ++ title ++ "\n") :: (lines ++ [(none, "// End " ++ title ++ "\n\n")])

/-- In a menu, the paths begin with its name. -/
def inMenu (name : String) (l : Option (List String) × String) : Option (List String) × String :=
  (l.1.map (name :: ·), l.2)

mutual

/-- The lines of an item, each with the path of the option that it is for. -/
def itemLines (preset : Preset ν) : ConfigItem ν → Lines
  | .option name value => [(some [name], optionLine name ((preset name).getD value))]
  | .menu name title items =>
    match preset name with
    | some value => [(some [name], optionLine name value)]
    | none => (menuLines title (itemsLines preset items)).map (inMenu name)

/-- The lines of the items of a menu. -/
def itemsLines (preset : Preset ν) : List (ConfigItem ν) → Lines
  | [] => []
  | item :: items => itemLines preset item ++ itemsLines preset items

end

/-- The text of the lines of a menu. -/
lemma join_menuLines (title : String) (lines : Lines) :
    String.join ((menuLines title lines).map Prod.snd) =
      menuText title (String.join (lines.map Prod.snd)) := by
  simp [menuLines, menuText, String.join_append, String.append_assoc]

/-- A longer path does not change the lines. -/
lemma map_inMenu_snd (name : String) (lines : Lines) :
    (lines.map (inMenu name)).map Prod.snd = lines.map Prod.snd := by
  simp [inMenu, Function.comp_def]

/-- The text of the lines of some items, from that of each. -/
lemma itemsLines_join (preset : Preset ν) {items : List (ConfigItem ν)}
    (h : ∀ i ∈ items, String.join ((itemLines preset i).map Prod.snd) = generateItem preset i) :
    String.join ((itemsLines preset items).map Prod.snd) = generateItems preset items := by
  induction items with
  | nil => rfl
  | cons i items ih =>
    obtain ⟨hi, hitems⟩ := List.forall_mem_cons.mp h
    rw [itemsLines, generateItems, List.map_append, String.join_append, hi, ih hitems]

/-- **The text of the lines of an item** is what the loop writes for it. -/
lemma itemLines_join (preset : Preset ν) (i : ConfigItem ν) :
    String.join ((itemLines preset i).map Prod.snd) = generateItem preset i := by
  induction i using ConfigItem.induct with
  | option name value => simp [itemLines, generateItem]
  | menu name title items ih =>
    rw [itemLines, generateItem]
    cases preset name with
    | none => rw [map_inMenu_snd, join_menuLines, itemsLines_join preset ih]
    | some value => simp

/-- **The header is the text of its lines**, each with the path of its option. -/
theorem generateConfiguration_lines (configMenu : ConfigMenu ν) (preset : Preset ν) :
    generateConfiguration configMenu preset =
      String.join ((menuLines configMenu.title (itemsLines preset configMenu.items)).map
        Prod.snd) := by
  rw [generateConfiguration, join_menuLines,
    itemsLines_join preset fun i _ => itemLines_join preset i]

end Lines

/-! ### One line for every option -/

mutual

/-- The paths of the options of an item. -/
def optionPaths : ConfigItem ν → List (List String)
  | .option name _ => [[name]]
  | .menu name _ items => (optionPathsIn items).map (name :: ·)

/-- The paths of the options of some items. -/
def optionPathsIn : List (ConfigItem ν) → List (List String)
  | [] => []
  | item :: items => optionPaths item ++ optionPathsIn items

end

mutual

/-- The names of the menus, at every level. -/
def menuNames : ConfigItem ν → List String
  | .option _ _ => []
  | .menu name _ items => name :: menuNamesIn items

/-- The names of the menus of some items, at every level. -/
def menuNamesIn : List (ConfigItem ν) → List String
  | [] => []
  | item :: items => menuNames item ++ menuNamesIn items

end

/-- A path of some items is one of an item. -/
lemma mem_optionPathsIn {path : List String} {items : List (ConfigItem ν)} :
    path ∈ optionPathsIn items ↔ ∃ i ∈ items, path ∈ optionPaths i := by
  induction items with
  | nil => simp [optionPathsIn]
  | cons i items ih => simp [optionPathsIn, ih]

/-- A name of a menu of some items is one of an item. -/
lemma mem_menuNamesIn {n : String} {items : List (ConfigItem ν)} :
    n ∈ menuNamesIn items ↔ ∃ i ∈ items, n ∈ menuNames i := by
  induction items with
  | nil => simp [menuNamesIn]
  | cons i items ih => simp [menuNamesIn, ih]

/-- A path begins with the name of the item. -/
lemma optionPaths_head {path : List String} {i : ConfigItem ν} (h : path ∈ optionPaths i) :
    ∃ rest, path = i.name :: rest := by
  cases i with
  | option name value => exact ⟨[], by simpa [optionPaths] using h⟩
  | menu name title items =>
    rw [optionPaths] at h
    obtain ⟨rest, -, rfl⟩ := List.mem_map.mp h
    exact ⟨rest, rfl⟩

mutual

/-- The names below an item are pairwise distinct, at every level. -/
def DistinctItem : ConfigItem ν → Prop
  | .option _ _ => True
  | .menu _ _ items => DistinctItems items

/-- The names are pairwise distinct, at every level. -/
def DistinctItems : List (ConfigItem ν) → Prop
  | [] => True
  | d :: items => named d.name items = [] ∧ DistinctItem d ∧ DistinctItems items

end

mutual

/-- An item of the merged menu that has what the default has. -/
def CoversItem : ConfigItem ν → ConfigItem ν → Prop
  | .option _ _, w => w.IsOption
  | .menu _ _ items, .menu _ _ merged => Covers items merged
  | .menu _ _ items, .option _ _ => items = []

/-- Every default name is there once, at its level, with an item of the kind of the default. -/
def Covers : List (ConfigItem ν) → List (ConfigItem ν) → Prop
  | [], _ => True
  | d :: def', merged => (∃ w, named d.name merged = [w] ∧ CoversItem d w) ∧ Covers def' merged

end

/-- A list covers the defaults when each has one item of its name that covers it. -/
lemma covers_iff {def' merged : List (ConfigItem ν)} :
    Covers def' merged ↔ ∀ d ∈ def', ∃ w, named d.name merged = [w] ∧ CoversItem d w := by
  induction def' with
  | nil => simp [Covers]
  | cons d def' ih => rw [Covers, ih, List.forall_mem_cons]

/-- What the merge makes of one default, when it merges the menu right. -/
lemma rightItems_of_mem {def' saved merged : List (ConfigItem ν)} (h : RightItems def' saved merged)
    {d : ConfigItem ν} (hd : d ∈ def') : ∃ w, named d.name merged = [w] ∧
      ((∃ s ∈ named d.name saved, RightItem d s w) ∨ (named d.name saved = [] ∧ w = d)) := by
  induction def' with
  | nil => simp at hd
  | cons d' def' ih =>
    rw [RightItems] at h
    cases hd with
    | head => exact h.1
    | tail _ hd => exact ih h.2 hd

/-- An item among others with distinct names is alone with its name. -/
lemma distinctItem_of_mem {items : List (ConfigItem ν)} (h : DistinctItems items)
    {d : ConfigItem ν} (hd : d ∈ items) : DistinctItem d ∧ named d.name items = [d] := by
  induction items with
  | nil => simp at hd
  | cons d' items ih =>
    rw [DistinctItems] at h
    obtain ⟨hnamed, hitem, hitems⟩ := h
    cases hd with
    | head => exact ⟨hitem, by simpa [named] using hnamed⟩
    | tail _ hd =>
      obtain ⟨hdist, hone⟩ := ih hitems hd
      have hne : d'.name ≠ d.name := fun h => named_eq_nil.mp hnamed d hd h.symm
      refine ⟨hdist, ?_⟩
      rw [← hone]
      simp [named, hne]

/-- The only item of a name has it. -/
lemma name_of_named {n : String} {items : List (ConfigItem ν)} {w : ConfigItem ν}
    (h : named n items = [w]) : w ∈ items ∧ w.name = n := by
  refine mem_named.mp ?_
  rw [h]
  exact List.mem_singleton_self w

/-- Distinct names are there once. -/
lemma coversItem_self (d : ConfigItem ν) : DistinctItem d → CoversItem d d := by
  induction d using ConfigItem.induct with
  | option name value => exact fun _ => trivial
  | menu name title items ih =>
    intro hdist
    rw [DistinctItem] at hdist
    rw [CoversItem, covers_iff]
    intro d hd
    obtain ⟨hitem, hone⟩ := distinctItem_of_mem hdist hd
    exact ⟨d, hone, ih d hd hitem⟩

/-- What is right for distinct defaults has each of them, by induction on the default. -/
lemma coversItem_of_right (d : ConfigItem ν) :
    DistinctItem d → ∀ s w, RightItem d s w → CoversItem d w := by
  induction d using ConfigItem.induct with
  | option name value =>
    intro _ s w h
    rw [RightItem] at h
    rw [CoversItem, h.2]
    exact h.1
  | menu name title items ih =>
    intro hdist s w h
    rw [DistinctItem] at hdist
    cases s with
    | option name' value =>
      rw [RightItem] at h
      rw [h.2, CoversItem, h.1]
    | menu name' title' saved =>
      rw [RightItem] at h
      obtain ⟨merged, rfl, hright⟩ := h
      rw [CoversItem, covers_iff]
      intro d hd
      obtain ⟨hitem, -⟩ := distinctItem_of_mem hdist hd
      obtain ⟨w, hone, ⟨s, -, hs⟩ | ⟨-, rfl⟩⟩ := rightItems_of_mem hright hd
      · exact ⟨w, hone, ih d hd hitem s w hs⟩
      · exact ⟨w, hone, coversItem_self w hitem⟩

/-- **A menu that is merged right covers the defaults** when their names are distinct. -/
lemma covers_of_right {def' saved merged : List (ConfigItem ν)} (hdist : DistinctItems def')
    (h : RightItems def' saved merged) : Covers def' merged := by
  refine covers_iff.mpr fun d hd => ?_
  obtain ⟨hitem, -⟩ := distinctItem_of_mem hdist hd
  obtain ⟨w, hone, ⟨s, -, hs⟩ | ⟨-, rfl⟩⟩ := rightItems_of_mem h hd
  · exact ⟨w, hone, coversItem_of_right d hitem s w hs⟩
  · exact ⟨w, hone, coversItem_self w hitem⟩

section Lines

variable [ToString ν]

/-- The lines for a path, of lines one behind the other. -/
@[simp] lemma linesFor_append (path : List String) (xs ys : Lines) :
    linesFor path (xs ++ ys) = linesFor path xs ++ linesFor path ys :=
  List.filter_append ..

/-- The lines of a menu are for the options in it. -/
lemma linesFor_inMenu (n name : String) (path : List String) (lines : Lines) :
    linesFor (n :: path) (lines.map (inMenu name)) =
      if name = n then (linesFor path lines).map (inMenu name) else [] := by
  have hpath : ((fun l : Option (List String) × String => decide (l.1 = some (n :: path))) ∘
      inMenu name) = fun l => decide (name = n ∧ l.1 = some path) := by
    funext l
    obtain ⟨tag, text⟩ := l
    cases tag <;> simp [inMenu]
  rw [linesFor, List.filter_map, hpath]
  split_ifs with hname <;> simp [linesFor, hname]

/-- The title and the end of a menu are lines for no option. -/
lemma linesFor_menuLines (title : String) (path : List String) (lines : Lines) :
    linesFor path (menuLines title lines) = linesFor path lines := by
  simp [menuLines, linesFor]

/-- The lines of an item are for paths that begin with its name. -/
lemma linesFor_itemLines_of_ne (preset : Preset ν) {i : ConfigItem ν} {n : String}
    (h : i.name ≠ n) (path : List String) : linesFor (n :: path) (itemLines preset i) = [] := by
  cases i with
  | option name value =>
    simp at h
    simp [itemLines, linesFor, h]
  | menu name title items =>
    simp at h
    rw [itemLines]
    cases preset name with
    | none => simp [linesFor_inMenu, h]
    | some value => simp [linesFor, h]

/-- The lines for a path come from the items of its first name. -/
lemma linesFor_itemsLines (preset : Preset ν) (n : String) (path : List String)
    (items : List (ConfigItem ν)) :
    linesFor (n :: path) (itemsLines preset items) =
      linesFor (n :: path) (itemsLines preset (named n items)) := by
  induction items with
  | nil => rfl
  | cons i items ih =>
    rw [itemsLines, linesFor_append, ih]
    by_cases hname : i.name = n
    · have hnamed : named n (i :: items) = i :: named n items := by simp [named, hname]
      rw [hnamed, itemsLines, linesFor_append]
    · have hnamed : named n (i :: items) = named n items := by simp [named, hname]
      rw [hnamed, linesFor_itemLines_of_ne preset hname, List.nil_append]

/-- The option at a path has one line. -/
def HasLine (lines : Lines) (path : List String) : Prop :=
  ∃ line, linesFor path lines = [line]

/-- Some items have a line for every option of the defaults, when their items have. -/
lemma hasLine_itemsLines {preset : Preset ν} {def' merged : List (ConfigItem ν)}
    (h : ∀ d ∈ def', ∀ w, CoversItem d w → w.name = d.name →
      (∀ n ∈ menuNames d, preset n = none) → ∀ path ∈ optionPaths d,
      HasLine (itemLines preset w) path)
    (hcovers : Covers def' merged) (hpreset : ∀ n ∈ menuNamesIn def', preset n = none) :
    ∀ path ∈ optionPathsIn def', HasLine (itemsLines preset merged) path := by
  intro path hpath
  obtain ⟨d, hd, hpathd⟩ := mem_optionPathsIn.mp hpath
  obtain ⟨w, hone, hw⟩ := covers_iff.mp hcovers d hd
  have hline : HasLine (itemLines preset w) path :=
    h d hd w hw (name_of_named hone).2
      (fun n hn => hpreset n (mem_menuNamesIn.mpr ⟨d, hd, hn⟩)) path hpathd
  obtain ⟨rest, rfl⟩ := optionPaths_head hpathd
  rw [HasLine, linesFor_itemsLines, hone, itemsLines, itemsLines, List.append_nil]
  exact hline

/-- **An item that covers a default** has a line for each of its options, when no menu on the way
has a value. -/
lemma hasLine_itemLines {preset : Preset ν} (d : ConfigItem ν) :
    ∀ w, CoversItem d w → w.name = d.name → (∀ n ∈ menuNames d, preset n = none) →
      ∀ path ∈ optionPaths d, HasLine (itemLines preset w) path := by
  induction d using ConfigItem.induct with
  | option name value =>
    intro w hw hname _ path hpath
    cases w with
    | option name' value' =>
      simp at hname
      simp [optionPaths] at hpath
      simp [HasLine, itemLines, linesFor, hname, hpath]
    | menu name' title' merged => exact hw.elim
  | menu name title items ih =>
    intro w hw hname hpreset path hpath
    rw [optionPaths] at hpath
    obtain ⟨rest, hrest, rfl⟩ := List.mem_map.mp hpath
    cases w with
    | option name' value' =>
      rw [CoversItem] at hw
      simp [hw, optionPathsIn] at hrest
    | menu name' title' merged =>
      simp at hname
      have hnone : preset name = none := hpreset name (by simp [menuNames])
      rw [CoversItem] at hw
      obtain ⟨line, hline⟩ := hasLine_itemsLines ih hw
        (fun n hn => hpreset n (by simp [menuNames, hn])) rest hrest
      rw [itemLines, hname, hnone, HasLine]
      simp [linesFor_inMenu, linesFor_menuLines, hline]

/-- **A menu that has every default once has one line for every default option.** -/
theorem covers_lines {preset : Preset ν} {def' merged : List (ConfigItem ν)}
    (hcovers : Covers def' merged) (hpreset : ∀ n ∈ menuNamesIn def', preset n = none) :
    ∀ path ∈ optionPathsIn def', HasLine (itemsLines preset merged) path :=
  hasLine_itemsLines (fun d _ => hasLine_itemLines d) hcovers hpreset

end Lines

/-! ### The menu that is written -/

/-- What `main` appends where no item is called `Syscalls`, for the names and numbers that it reads
from `syscalls.json`. -/
def withSyscalls (syscalls : List (String × ν)) (configMenu : ConfigMenu ν) : ConfigMenu ν :=
  match configMenu.items.find? fun item => item.name = "Syscalls" with
  | some _ => configMenu
  | none =>
    { configMenu with
      items := configMenu.items ++ [.menu "Syscalls" "Syscalls"
        (syscalls.map fun syscall => .option (syscall.1 ++ "_ID") (.number syscall.2))] }

/-- The `configMenu` of `main`, which it writes as the header and saves for the next run; with
`--auto` nobody is asked for other values. -/
def mainMenu (syscalls : List (String × ν)) (configuration : ConfigMenu ν)
    (userConfiguration : Option (ConfigMenu ν)) : ConfigMenu ν :=
  withSyscalls syscalls (mergeDefault configuration userConfiguration)

/-- The appended menu takes the place of no default. -/
lemma covers_withSyscalls (syscalls : List (String × ν)) {def' : List (ConfigItem ν)}
    {configMenu : ConfigMenu ν} (h : Covers def' configMenu.items) :
    Covers def' (withSyscalls syscalls configMenu).items := by
  rw [withSyscalls]
  cases hfind : configMenu.items.find? fun item => item.name = "Syscalls" with
  | some item => exact h
  | none =>
    refine covers_iff.mpr fun d hd => ?_
    obtain ⟨w, hone, hw⟩ := covers_iff.mp h d hd
    obtain ⟨hmem, hname⟩ := name_of_named hone
    have hne : "Syscalls" ≠ d.name := by
      have hall := List.find?_eq_none.mp hfind w hmem
      simpa [hname, eq_comm] using hall
    refine ⟨w, ?_, hw⟩
    rw [named_append, hone]
    simp [named, hne]

/-- **Settings merge without loss**: the merged menu is right for every default, and the header of
`main` has one line for every default option, also with a preset for options. -/
structure MergesWithoutLoss [ToString ν] (syscalls : List (String × ν))
    (def' saved : ConfigMenu ν) : Prop where
  right : RightItems def'.items saved.items (mergeDefault def' (some saved)).items
  line : ∀ preset : Preset ν, (∀ n ∈ menuNamesIn def'.items, preset n = none) →
    ∀ path ∈ optionPathsIn def'.items,
      HasLine (itemsLines preset (mainMenu syscalls def' (some saved)).items) path

/-- **Which saved settings merge without loss**: those that fit the defaults at their indices. -/
theorem mergesWithoutLoss_iff [ToString ν] (syscalls : List (String × ν))
    {def' saved : ConfigMenu ν} (hdist : DistinctItems def'.items) :
    MergesWithoutLoss syscalls def' saved ↔
      FitsItems def'.items def'.items saved.items := by
  rw [← rightItems_iff]
  refine ⟨fun h => h.right, fun hright => ⟨hright, fun preset hpreset => ?_⟩⟩
  have hcovers : Covers def'.items (mergeDefault def' (some saved)).items :=
    covers_of_right hdist hright
  exact covers_lines (covers_withSyscalls syscalls hcovers) hpreset

/-- Two options that have changed their places since they were saved. -/
theorem mergesWithoutLoss_reordered :
    MergesWithoutLoss [("EXIT", 1)]
      ⟨"Kernel", [.option "DEBUG" (.boolean true), .option "MAX_TASKS" (.number 32)]⟩
      (mainMenu [("EXIT", 1)]
        ⟨"Kernel", [.option "MAX_TASKS" (.number 64), .option "DEBUG" (.boolean false)]⟩ none) :=
  (mergesWithoutLoss_iff [("EXIT", 1)] (by simp [DistinctItems, DistinctItem, named])).mpr (by
    simp [FitsItems, FitsItem, mainMenu, mergeDefault, withSyscalls, pairedNamed, paired, named,
      IsOption])

/-- An option is added behind the others, at the index of the saved `Syscalls`: it gets no line. -/
theorem added_option_lost :
    ¬MergesWithoutLoss [("EXIT", 1)]
      ⟨"Kernel", [.option "DEBUG" (.boolean true), .option "MAX_TASKS" (.number 32)]⟩
      (mainMenu [("EXIT", 1)] ⟨"Kernel", [.option "DEBUG" (.boolean true)]⟩ none) := by
  intro h
  have hright := h.right
  simp [RightItems, mainMenu, mergeDefault, withSyscalls, mergeItems, mergeItem, named] at hright

end MicroOS
