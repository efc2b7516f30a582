import Blockwise.Catalog
import Blockwise.Proofs.Dictionary
import Blockwise.Proofs.Text
import Mathlib.Data.List.Induction
import Mathlib.Tactic.Push

/-!
# Catalogs are read exactly

What the text of a catalog holds, said of its lines alone and of what stands in each of them.  A
text is a catalog exactly if every line with an entry has a key of its own; otherwise the first
line that does not is to blame.  So the order of the entries makes no difference, and neither do
comments, blank lines and the kind of line end.
-/

namespace Blockwise
namespace Catalog

def content (line : String) : List Char :=
  Text.trimmed line.toList

def contents (text : String) : List (List Char) :=
  (Text.lines text).map content

def IsEntry (line : List Char) : Prop :=
  line ≠ [] ∧ line.head? ≠ some '#'

instance : DecidablePred IsEntry :=
  fun _ => inferInstanceAs (Decidable (_ ∧ _))

/-- Before the first equals sign of the line stands the key, maybe with blanks around it, and
after it the template. -/
def Spells (line : List Char) (key template : String) : Prop :=
  ∃ before, '=' ∉ before ∧ line = before ++ '=' :: template.toList ∧
    Text.trimmed before = key.toList ∧ key ≠ ""

structure WellFormed (lines : List (List Char)) : Prop where
  spelled : ∀ line ∈ lines, IsEntry line → ∃ key template, Spells line key template
  distinct : (lines.filter IsEntry).Pairwise fun line line' =>
    ∀ key template template', Spells line key template → ¬ Spells line' key template'

/-- What is wrong with a line behind the lines before it. -/
inductive Fails (earlier : List (List Char)) (line : List Char) : CatalogError → Prop where
  | malformed : IsEntry line → (∀ key template, ¬ Spells line key template) →
      Fails earlier line (.malformed (earlier.length + 1))
  | duplicate {key template template' : String} {line' : List Char} :
      IsEntry line → Spells line key template →
      line' ∈ earlier → IsEntry line' → Spells line' key template' →
      Fails earlier line (.duplicate (earlier.length + 1) key)

def Holds (templates : Dictionary String) (lines : List (List Char)) : Prop :=
  ∀ key template, templates.get? key = some template ↔
    ∃ line ∈ lines, IsEntry line ∧ Spells line key template

variable {line : List Char} {lines earlier rest : List (List Char)} {key key' template : String}
  {template' text : String} {templates : Dictionary String} {e : CatalogError}

/-!
# Single lines

A line that is neither empty nor a comment holds an entry, if an equals sign stands in it behind a
key.  It spells one key and one template at most.
-/

theorem isSkipped_iff : isSkipped line = true ↔ ¬ IsEntry line := by
  cases line with
  | nil => simp [isSkipped, IsEntry]
  | cons c more => simp [isSkipped, IsEntry]

theorem entry?_eq_some_iff : entry? line = some (key, template) ↔ Spells line key template := by
  unfold entry? Spells
  constructor
  · intro h
    split at h
    · cases h
    · next before after hcut =>
        rcases Text.cut?_eq_some_iff.mp hcut with ⟨hmark, hline⟩
        dsimp only at h
        split at h
        · cases h
        · next hsome =>
            cases h
            rw [List.isEmpty_iff] at hsome
            refine ⟨before, hmark, by rw [String.toList_ofList, hline], ?_, ?_⟩
            · rw [String.toList_ofList]
            · exact fun hkey => hsome (String.ofList_eq_empty_iff.mp hkey)
  · intro hgiven
    rcases hgiven with ⟨before, hmark, rfl, hkey, hsome⟩
    rw [Text.cut?_append hmark]
    simp [hkey, hsome]

theorem entry?_eq_none_iff : entry? line = none ↔ ∀ key template, ¬ Spells line key template := by
  rw [Option.eq_none_iff_forall_ne_some]
  constructor
  · intro h key template hspells
    exact h (key, template) (entry?_eq_some_iff.mpr hspells)
  · intro h entry hentry
    exact h entry.1 entry.2 (entry?_eq_some_iff.mp hentry)

theorem Spells.unique (h : Spells line key template) (h' : Spells line key' template') :
    key = key' ∧ template = template' := by
  have hsame := (entry?_eq_some_iff.mpr h).symm.trans (entry?_eq_some_iff.mpr h')
  cases hsame
  exact ⟨rfl, rfl⟩

theorem Holds.contains_iff (h : Holds templates lines) :
    templates.contains key = true ↔
      ∃ line ∈ lines, IsEntry line ∧ ∃ template, Spells line key template := by
  rw [Dictionary.contains, Option.isSome_iff_exists]
  constructor
  · intro hgiven
    rcases hgiven with ⟨template, hget⟩
    rcases (h key template).mp hget with ⟨line, hline, hentry, hspells⟩
    exact ⟨line, hline, hentry, template, hspells⟩
  · intro hgiven
    rcases hgiven with ⟨line, hline, hentry, template, hspells⟩
    exact ⟨template, (h key template).mpr ⟨line, hline, hentry, hspells⟩⟩

/-!
# Lines one after another

Lines are well formed as long as none of them fails behind those before it.
-/

theorem wellFormed_nil : WellFormed [] where
  spelled := by simp
  distinct := List.Pairwise.nil

theorem holds_nil : Holds ∅ [] := by
  intro key template
  simp

theorem WellFormed.of_append (h : WellFormed (earlier ++ rest)) : WellFormed earlier where
  spelled line hline := h.spelled line (List.mem_append_left rest hline)
  distinct := by
    have hdistinct := h.distinct
    rw [List.filter_append] at hdistinct
    exact (List.pairwise_append.mp hdistinct).1

theorem wellFormed_concat_iff :
    WellFormed (earlier ++ [line]) ↔ WellFormed earlier ∧ ∀ e, ¬ Fails earlier line e := by
  constructor
  · intro h
    refine ⟨h.of_append, ?_⟩
    intro e hfails
    cases hfails with
    | malformed hentry hnone =>
        rcases h.spelled line (by simp) hentry with ⟨key, template, hspells⟩
        exact hnone key template hspells
    | duplicate hentry hspells hline' hentry' hspells' =>
        have hdistinct := h.distinct
        rw [List.filter_append, List.pairwise_append] at hdistinct
        exact hdistinct.2.2 _ (by simp [hline', hentry']) line (by simp [hentry]) _ _ _
          hspells' hspells
  · intro hgiven
    rcases hgiven with ⟨h, hfine⟩
    constructor
    · intro other hother hentry
      rcases List.mem_append.mp hother with hearlier | hlast
      · exact h.spelled other hearlier hentry
      · rw [List.mem_singleton.mp hlast] at hentry ⊢
        by_contra hnone
        push Not at hnone
        exact hfine _ (Fails.malformed hentry hnone)
    · rw [List.filter_append, List.pairwise_append]
      refine ⟨h.distinct, ?_, ?_⟩
      · exact List.Pairwise.sublist List.filter_sublist (List.pairwise_singleton _ line)
      · intro line' hline' other hother key template template' hspells' hspells
        rw [List.mem_filter, decide_eq_true_eq] at hline' hother
        rcases hother with ⟨hlast, hentry⟩
        rw [List.mem_singleton.mp hlast] at hentry hspells
        exact hfine _ (Fails.duplicate hentry hspells hline'.1 hline'.2 hspells')

theorem wellFormed_or_fails (lines : List (List Char)) :
    WellFormed lines ∨ ∃ earlier line later e, lines = earlier ++ line :: later ∧
      WellFormed earlier ∧ Fails earlier line e := by
  induction lines using List.reverseRecOn with
  | nil => exact Or.inl wellFormed_nil
  | append_singleton earlier line ih =>
      rcases ih with hearlier | ⟨earlier', line', later, e, rfl, hearlier, hfails⟩
      · by_cases hfine : ∀ e, ¬ Fails earlier line e
        · exact Or.inl (wellFormed_concat_iff.mpr ⟨hearlier, hfine⟩)
        · push Not at hfine
          rcases hfine with ⟨e, hfails⟩
          exact Or.inr ⟨earlier, line, [], e, rfl, hearlier, hfails⟩
      · exact Or.inr ⟨earlier', line', later ++ [line], e, by simp, hearlier, hfails⟩

/-!
# Reading

Well-formed lines are taken over, whatever comes after them, and the first line that fails ends the
reading.
-/

theorem Holds.skip (h : Holds templates earlier) (hline : ¬ IsEntry line) :
    Holds templates (earlier ++ [line]) := by
  intro key template
  rw [h key template]
  constructor
  · intro hgiven
    rcases hgiven with ⟨line', hline', hentry, hspells⟩
    exact ⟨line', List.mem_append_left _ hline', hentry, hspells⟩
  · intro hgiven
    rcases hgiven with ⟨line', hline', hentry, hspells⟩
    rcases List.mem_append.mp hline' with hearlier | hlast
    · exact ⟨line', hearlier, hentry, hspells⟩
    · rw [List.mem_singleton.mp hlast] at hentry
      exact absurd hentry hline

theorem Holds.insert (h : Holds templates earlier) (hentry : IsEntry line)
    (hspells : Spells line key template) (hnew : templates.contains key = false) :
    Holds (templates.insert key template) (earlier ++ [line]) := by
  have hother : ∀ line' ∈ earlier, IsEntry line' → ∀ template', ¬ Spells line' key template' := by
    intro line' hline' hentry' template' hspells'
    rw [h.contains_iff.mpr ⟨line', hline', hentry', template', hspells'⟩] at hnew
    cases hnew
  intro key' template'
  rw [Dictionary.get?_insert]
  constructor
  · intro hget
    split at hget
    · next hkey =>
        cases hget
        rw [hkey]
        exact ⟨line, by simp, hentry, hspells⟩
    · rcases (h key' template').mp hget with ⟨line', hline', hentry', hspells'⟩
      exact ⟨line', List.mem_append_left _ hline', hentry', hspells'⟩
  · intro hgiven
    rcases hgiven with ⟨line', hline', hentry', hspells'⟩
    rcases List.mem_append.mp hline' with hearlier | hlast
    · have hne : key' ≠ key := by
        intro hkey
        rw [hkey] at hspells'
        exact hother line' hearlier hentry' template' hspells'
      rw [if_neg hne]
      exact (h key' template').mpr ⟨line', hearlier, hentry', hspells'⟩
    · rw [List.mem_singleton.mp hlast] at hspells'
      rcases hspells.unique hspells' with ⟨rfl, rfl⟩
      rw [if_pos rfl]

theorem ofText_eq (text : String) :
    ofText text = (addLines ∅ 1 (Text.lines text)).map Catalog.mk := rfl

theorem addLines_entry {raw : String} (h : IsEntry (content raw))
    (templates : Dictionary String) (number : Nat) (rest : List String) :
    addLines templates number (raw :: rest) =
      match entry? (content raw) with
      | none => .error (.malformed number)
      | some (key, template) =>
          if templates.contains key then .error (.duplicate number key)
          else addLines (templates.insert key template) (number + 1) rest :=
  if_neg fun hskip => isSkipped_iff.mp hskip h

theorem addLines_cons (h : Holds templates earlier) {raw : String}
    (hfine : ∀ e, ¬ Fails earlier (content raw) e) :
    ∃ templates', Holds templates' (earlier ++ [content raw]) ∧ ∀ number rest,
      addLines templates number (raw :: rest) = addLines templates' (number + 1) rest := by
  by_cases hentry : IsEntry (content raw)
  · cases hread : entry? (content raw) with
    | none => exact absurd (Fails.malformed hentry (entry?_eq_none_iff.mp hread)) (hfine _)
    | some entry =>
        rcases entry with ⟨key, template⟩
        have hspells := entry?_eq_some_iff.mp hread
        have hnew : ¬ templates.contains key = true := by
          intro hcontains
          rcases h.contains_iff.mp hcontains with ⟨line', hline', hentry', template', hspells'⟩
          exact hfine _ (Fails.duplicate hentry hspells hline' hentry' hspells')
        refine ⟨templates.insert key template,
          h.insert hentry hspells (Bool.eq_false_iff.mpr hnew), ?_⟩
        intro number rest
        rw [addLines_entry hentry, hread]
        exact if_neg hnew
  · refine ⟨templates, h.skip hentry, ?_⟩
    intro number rest
    exact if_pos (isSkipped_iff.mpr hentry)

theorem addLines_fails (h : Holds templates earlier) {raw : String}
    (hfails : Fails earlier (content raw) e) (rest : List String) :
    addLines templates (earlier.length + 1) (raw :: rest) = .error e := by
  cases hfails with
  | malformed hentry hnone => rw [addLines_entry hentry, entry?_eq_none_iff.mpr hnone]
  | duplicate hentry hspells hline' hentry' hspells' =>
      rw [addLines_entry hentry, entry?_eq_some_iff.mpr hspells]
      exact if_pos (h.contains_iff.mpr ⟨_, hline', hentry', _, hspells'⟩)

theorem addLines_append {raws : List String} (h : WellFormed (raws.map content)) :
    ∃ templates, Holds templates (raws.map content) ∧
      ∀ rest, addLines ∅ 1 (raws ++ rest) = addLines templates (raws.length + 1) rest := by
  induction raws using List.reverseRecOn with
  | nil => exact ⟨∅, holds_nil, fun _ => rfl⟩
  | append_singleton raws raw ih =>
      rw [List.map_append, List.map_singleton] at h ⊢
      rcases wellFormed_concat_iff.mp h with ⟨hearlier, hfine⟩
      rcases ih hearlier with ⟨templates, hholds, hread⟩
      rcases addLines_cons hholds hfine with ⟨templates', hholds', hread'⟩
      refine ⟨templates', hholds', ?_⟩
      intro rest
      rw [List.append_assoc, List.singleton_append, hread, hread', List.length_append]
      rfl

theorem Holds.unique {templates' : Dictionary String} (h : Holds templates lines)
    (h' : Holds templates' lines) : templates = templates' := by
  apply Dictionary.ext_get?
  intro key
  apply Option.ext
  intro template
  rw [h key template, h' key template]

theorem ofText_of_wellFormed (h : WellFormed (contents text)) :
    ∃ templates, ofText text = .ok ⟨templates⟩ ∧ Holds templates (contents text) := by
  rcases addLines_append h with ⟨templates, hholds, hread⟩
  refine ⟨templates, ?_, hholds⟩
  have hall := hread []
  rw [List.append_nil] at hall
  rw [ofText_eq, hall]
  rfl

theorem ofText_of_fails {later : List (List Char)} (h : WellFormed earlier)
    (hfails : Fails earlier line e) (htext : contents text = earlier ++ line :: later) :
    ofText text = .error e := by
  rcases List.map_eq_append_iff.mp htext with ⟨raws, others, hlines, rfl, hothers⟩
  rcases List.map_eq_cons_iff.mp hothers with ⟨raw, more, rfl, rfl, _⟩
  rcases addLines_append h with ⟨templates, hholds, hread⟩
  have hstop := addLines_fails hholds hfails more
  rw [List.length_map] at hstop
  rw [ofText_eq, hlines, hread, hstop]
  rfl

theorem ofText_eq_ok_iff {catalog : Catalog} : ofText text = .ok catalog ↔
    WellFormed (contents text) ∧ Holds catalog.templates (contents text) := by
  constructor
  · intro h
    rcases wellFormed_or_fails (contents text) with hgood |
      ⟨earlier, line, later, e, htext, hearlier, hfails⟩
    · rcases ofText_of_wellFormed hgood with ⟨templates, hread, hholds⟩
      cases h.symm.trans hread
      exact ⟨hgood, hholds⟩
    · cases h.symm.trans (ofText_of_fails hearlier hfails htext)
  · intro hgiven
    rcases hgiven with ⟨hgood, hholds⟩
    rcases ofText_of_wellFormed hgood with ⟨templates, hread, hholds'⟩
    rw [hread, hholds'.unique hholds]

theorem ofText_eq_error_iff : ofText text = .error e ↔
    ∃ earlier line later, contents text = earlier ++ line :: later ∧
      WellFormed earlier ∧ Fails earlier line e := by
  constructor
  · intro h
    rcases wellFormed_or_fails (contents text) with hgood |
      ⟨earlier, line, later, e', htext, hearlier, hfails⟩
    · rcases ofText_of_wellFormed hgood with ⟨templates, hread, _⟩
      cases h.symm.trans hread
    · cases h.symm.trans (ofText_of_fails hearlier hfails htext)
      exact ⟨earlier, line, later, htext, hearlier, hfails⟩
  · intro hgiven
    rcases hgiven with ⟨earlier, line, later, htext, hearlier, hfails⟩
    exact ofText_of_fails hearlier hfails htext

/-!
# Catalogs written out

A key can be looked up after it was written in front of an equals sign.  The rows of a dictionary
may come in any order, and among any lines without entries.
-/

/-- A text that can be looked up after it was written in front of an equals sign. -/
structure IsKey (key : String) : Prop where
  ne_empty : key ≠ ""
  trimmed : Text.trimmed key.toList = key.toList
  mark : '=' ∉ key.toList
  comment : key.toList.head? ≠ some '#'

instance (key : String) : Decidable (IsKey key) :=
  decidable_of_iff
    (key ≠ "" ∧ Text.trimmed key.toList = key.toList ∧ '=' ∉ key.toList ∧
      key.toList.head? ≠ some '#')
    ⟨fun h => ⟨h.1, h.2.1, h.2.2.1, h.2.2.2⟩, fun h => ⟨h.1, h.2, h.3, h.4⟩⟩

def row (entry : String × String) : List Char :=
  entry.1.toList ++ '=' :: entry.2.toList

theorem IsKey.toList_ne_nil (h : IsKey key) : key.toList ≠ [] := by
  rw [Ne, String.toList_eq_nil_iff]
  exact h.ne_empty

theorem IsKey.head?_row (h : IsKey key) : (row (key, template)).head? = key.toList.head? :=
  List.head?_append_of_ne_nil _ h.toList_ne_nil

theorem IsKey.trimmed_row (h : IsKey key)
    (htemplate : Text.trimEnd template.toList = template.toList) :
    Text.trimmed (row (key, template)) = row (key, template) := by
  apply Text.trimmed_eq_self
  · rw [h.head?_row]
    exact Text.head?_of_trimmed h.trimmed
  · intro c hc
    rw [row, List.getLast?_append, List.getLast?_cons] at hc
    cases hlast : template.toList.getLast? with
    | none =>
        rw [hlast] at hc
        cases hc
        decide
    | some d =>
        rw [hlast] at hc
        cases hc
        exact Text.getLast?_of_trimEnd htemplate _ hlast

theorem IsKey.spells_row (h : IsKey key) : Spells (row (key, template)) key template :=
  ⟨key.toList, h.mark, rfl, h.trimmed, h.ne_empty⟩

theorem contents_of_lays {rows : List (List Char)} (h : Text.Lays rows text.toList) :
    contents text = rows.map Text.trimmed := by
  rw [← h.trimmed_linesFrom, contents, Text.lines, List.map_map]
  refine List.map_congr_left fun line _ => ?_
  simp [content]

theorem IsKey.isEntry_row (h : IsKey key) : IsEntry (row (key, template)) := by
  constructor
  · simp [row]
  · rw [h.head?_row]
    exact h.comment

theorem filter_map_row {entries : List (String × String)}
    (hkeys : ∀ entry ∈ entries, IsKey entry.1 ∧ Text.trimEnd entry.2.toList = entry.2.toList) :
    ((entries.map row).map Text.trimmed).filter IsEntry = entries.map row := by
  have hentry : ∀ line ∈ entries.map row, Text.trimmed line = line ∧ IsEntry line := by
    intro line hline
    rcases List.mem_map.mp hline with ⟨entry, hgiven, rfl⟩
    rcases hkeys entry hgiven with ⟨hkey, htemplate⟩
    exact ⟨hkey.trimmed_row htemplate, hkey.isEntry_row⟩
  rw [List.map_congr_left fun line hline => (hentry line hline).1, List.map_id',
    List.filter_eq_self.mpr]
  intro line hline
  exact decide_eq_true (hentry line hline).2

theorem filter_contents_of_lays {entries : List (String × String)} {rows others : List (List Char)}
    (hrows : Text.Lays rows text.toList)
    (hkeys : ∀ entry ∈ entries, IsKey entry.1 ∧ Text.trimEnd entry.2.toList = entry.2.toList)
    (hperm : rows.Perm (entries.map row ++ others))
    (hothers : ∀ line ∈ others, ¬ IsEntry (Text.trimmed line)) :
    ((contents text).filter IsEntry).Perm (entries.map row) := by
  have hdropped : (others.map Text.trimmed).filter IsEntry = [] := by
    rw [List.filter_eq_nil_iff]
    intro line hline
    rcases List.mem_map.mp hline with ⟨other, hother, rfl⟩
    rw [decide_eq_true_eq]
    exact hothers other hother
  have hall := (hperm.map Text.trimmed).filter fun line => decide (IsEntry line)
  rw [List.map_append, List.filter_append, filter_map_row hkeys, hdropped, List.append_nil] at hall
  rw [contents_of_lays hrows]
  exact hall

theorem ofText_of_lays {rows others : List (List Char)} (hrows : Text.Lays rows text.toList)
    (hkeys : ∀ entry ∈ templates.entries,
      IsKey entry.1 ∧ Text.trimEnd entry.2.toList = entry.2.toList)
    (hperm : rows.Perm (templates.entries.map row ++ others))
    (hothers : ∀ line ∈ others, ¬ IsEntry (Text.trimmed line)) :
    ofText text = .ok ⟨templates⟩ := by
  have hentries := filter_contents_of_lays hrows hkeys hperm hothers
  have hmem : ∀ line, line ∈ contents text ∧ IsEntry line ↔
      ∃ entry ∈ templates.entries, row entry = line := by
    intro line
    rw [← List.mem_map, ← hentries.mem_iff, List.mem_filter, decide_eq_true_eq]
  refine ofText_eq_ok_iff.mpr ⟨⟨?_, ?_⟩, ?_⟩
  · intro line hline hentry
    rcases (hmem line).mp ⟨hline, hentry⟩ with ⟨entry, hgiven, rfl⟩
    exact ⟨entry.1, entry.2, (hkeys entry hgiven).1.spells_row⟩
  · refine (hentries.pairwise_iff ?_).mpr ?_
    · intro line line' hapart key template template' hspells' hspells
      exact hapart key template' template hspells hspells'
    · rw [List.pairwise_map]
      refine templates.ordered.imp_of_mem ?_
      intro entry entry' hgiven hgiven' hlt key template template' hspells hspells'
      rcases (hkeys entry hgiven).1.spells_row.unique hspells with ⟨rfl, _⟩
      rcases (hkeys entry' hgiven').1.spells_row.unique hspells' with ⟨hkey, _⟩
      exact String.ne_of_lt hlt hkey.symm
  · intro key template
    rw [← Dictionary.mem_entries_iff]
    constructor
    · intro hgiven
      have hline := (hmem _).mpr ⟨(key, template), hgiven, rfl⟩
      exact ⟨_, hline.1, hline.2, (hkeys _ hgiven).1.spells_row⟩
    · intro hgiven
      rcases hgiven with ⟨line, hline, hentry, hspells⟩
      rcases (hmem line).mp ⟨hline, hentry⟩ with ⟨entry, hentry', rfl⟩
      rcases (hkeys entry hentry').1.spells_row.unique hspells with ⟨rfl, rfl⟩
      exact hentry'

/-- A text is a catalog exactly if its entries have keys of their own, and then the catalog has
these entries and no others.  Otherwise the error is about the first line with an entry that has
no key, or the key of an entry before it.  So every dictionary is read back from the lines of its
entries, whatever their order and whatever comments and blank lines there are. -/
theorem read_exactly :
    (∀ text, (∃ catalog, ofText text = .ok catalog) ↔ WellFormed (contents text)) ∧
      (∀ text catalog, ofText text = .ok catalog ↔
        WellFormed (contents text) ∧ Holds catalog.templates (contents text)) ∧
      (∀ text e, ofText text = .error e ↔
        ∃ earlier line later, contents text = earlier ++ line :: later ∧
          WellFormed earlier ∧ Fails earlier line e) ∧
      ∀ (templates : Dictionary String) (rows others : List (List Char)) (text : String),
        (∀ entry ∈ templates.entries,
          IsKey entry.1 ∧ Text.trimEnd entry.2.toList = entry.2.toList) →
        (∀ line ∈ others, ¬ IsEntry (Text.trimmed line)) →
        rows.Perm (templates.entries.map row ++ others) → Text.Lays rows text.toList →
        ofText text = .ok ⟨templates⟩ := by
  refine ⟨?_, fun _ _ => ofText_eq_ok_iff, fun _ _ => ofText_eq_error_iff,
    fun _ _ _ _ hkeys hothers hperm hrows => ofText_of_lays hrows hkeys hperm hothers⟩
  intro text
  constructor
  · intro hgiven
    rcases hgiven with ⟨catalog, hread⟩
    exact (ofText_eq_ok_iff.mp hread).1
  · intro h
    rcases ofText_of_wellFormed h with ⟨templates, hread, _⟩
    exact ⟨⟨templates⟩, hread⟩

theorem read_exactly_shuffled :
    ofText "# c\r\nb=x=y\n\na=1" = .ok ⟨.ofList [("a", "1"), ("b", "x=y")]⟩ ∧
      ofText "a=1\n# c\na=2" = .error (.duplicate 3 "a") := by
  rcases read_exactly with ⟨_, _, herror, hrows⟩
  have hentries : (Dictionary.ofList [("a", "1"), ("b", "x=y")]).entries =
      [("a", "1"), ("b", "x=y")] := by decide +kernel
  constructor
  · have htext : "# c\r\nb=x=y\n\na=1".toList = ['#', ' ', 'c'] ++ ['\r', '\n'] ++
        (['b', '=', 'x', '=', 'y'] ++ ['\n'] ++ ([] ++ ['\n'] ++ ['a', '=', '1'])) := by cbv
    apply hrows _ [['#', ' ', 'c'], ['b', '=', 'x', '=', 'y'], [], ['a', '=', '1']]
      [['#', ' ', 'c'], []]
    · rw [hentries]
      decide +kernel
    · decide
    · rw [hentries]
      decide +kernel
    · rw [htext]
      exact .row (by decide) (by decide) (.row (by decide) (by decide)
        (.row (by decide) (by decide) (.last (by decide) (by decide))))
  · have hfirst : Spells ['a', '=', '1'] "a" "1" := entry?_eq_some_iff.mp (by cbv)
    have hlast : Spells ['a', '=', '2'] "a" "2" := entry?_eq_some_iff.mp (by cbv)
    have hearlier : WellFormed [['a', '=', '1'], ['#', ' ', 'c']] := by
      constructor
      · intro line hline hentry
        rcases List.mem_pair.mp hline with rfl | rfl
        · exact ⟨"a", "1", hfirst⟩
        · exact absurd hentry (by decide)
      · exact List.pairwise_singleton _ _
    apply (herror _ _).mpr
    refine ⟨_, ['a', '=', '2'], [], by cbv, hearlier, ?_⟩
    exact Fails.duplicate (by decide) hlast (by decide) (by decide) hfirst

end Catalog
end Blockwise
