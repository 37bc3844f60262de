import Colloquy.Proofs.Script.Stock
import Mathlib.Data.String.Basic

/-!
# Proofs/Script/Directory — what is loaded of a directory

The scripts of a directory are loaded in the order of their names, each under its stem. Whether a
script is accepted does not depend on what was loaded before it, and no two names of scripts have
one stem; so a script that is refused makes no difference to the others. But an entry named like a
script that is no text, a directory say, ends the loading. Main statement:
`Library.loadsUpTo_loadDirectory`.
-/

namespace Colloquy

/-! ## Names of scripts -/

theorem pathPartsFrom_of_plain {cs : List Char} (h : '/' ∉ cs) :
    ∀ part, pathPartsFrom part cs = [String.ofList (part.reverse ++ cs)] := by
  induction cs with
  | nil => exact fun part => by rw [pathPartsFrom, List.append_nil]
  | cons c cs ih =>
    intro part
    obtain ⟨hc, hcs⟩ := not_or.1 (mt List.mem_cons.2 h)
    rw [pathPartsFrom, if_neg (Ne.symm hc), ih hcs, List.reverse_cons, List.append_assoc,
      List.singleton_append]

theorem pathParts_of_plain {name : String} (h : '/' ∉ name.toList) : pathParts name = [name] := by
  rw [pathParts, pathPartsFrom_of_plain h, List.reverse_nil, List.nil_append, String.ofList_toList]

/-- What is cut at the last dot is put together again with a dot. -/
theorem toList_of_splitName {name stem extension : String}
    (h : splitName name = (stem, some extension)) :
    name.toList = stem.toList ++ '.' :: extension.toList := by
  unfold splitName at h
  dsimp only at h
  generalize hr : name.toList.reverse = reversed at h
  split at h
  case isTrue => cases h
  case isFalse hstem =>
    cases h
    rw [String.toList_ofList, String.toList_ofList]
    have hcut := List.takeWhile_append_dropWhile (p := (· ≠ '.')) (l := reversed)
    cases hd : reversed.dropWhile (· ≠ '.') with
    | nil => exact absurd (by rw [hd]; rfl) hstem
    | cons c cs =>
      have hdot : c = '.' := by
        have hhead := List.head_dropWhile_not (l := reversed) (· ≠ '.') (by rw [hd]; simp)
        simp only [hd, List.head_cons] at hhead
        exact not_not.1 (of_decide_eq_false hhead)
      rw [hd, hdot] at hcut
      rw [← List.reverse_inj, hr, List.reverse_append, List.reverse_cons, List.reverse_reverse,
        List.drop_one, List.tail_cons, List.reverse_reverse, List.append_assoc,
        List.singleton_append, hcut]

theorem exists_splitName_of_hasExtension {extension name : String}
    (h : hasExtension extension name = true) :
    ∃ stem, splitName name = (stem, some extension) :=
  ⟨_, Prod.ext rfl (eq_of_beq h)⟩

/-- The stem of a script is its name without what makes it a script. -/
theorem toList_of_script {name : String} (hplain : '/' ∉ name.toList)
    (h : hasExtension "json" name = true) :
    name.toList = (fileStem name).toList ++ ".json".toList := by
  obtain ⟨stem, hsplit⟩ := exists_splitName_of_hasExtension h
  have hstays : staysHere name = false := by
    unfold staysHere
    rw [Bool.or_eq_false_iff, beq_eq_false_iff_ne, beq_eq_false_iff_ne]
    constructor
    all_goals
      rintro rfl
      revert h
      decide
  have hup : name ≠ ".." := by
    rintro rfl
    revert h
    decide
  have hname : fileName? name = some name := by
    rw [fileName?, pathParts_of_plain hplain, List.filter_cons, hstays]
    exact if_neg hup
  have hstem : fileStem name = stem := by
    rw [fileStem, hname]
    exact congrArg Prod.fst hsplit
  rw [hstem]
  exact toList_of_splitName hsplit

/-- No two names of scripts have one stem. -/
theorem eq_of_fileStem_eq {a b : String} (ha : '/' ∉ a.toList) (hb : '/' ∉ b.toList)
    (ha' : hasExtension "json" a = true) (hb' : hasExtension "json" b = true)
    (h : fileStem a = fileStem b) : a = b := by
  rw [← String.toList_inj, toList_of_script ha ha', toList_of_script hb hb', h]

/-- The entries of a directory: their names are their own, and no paths. -/
structure Node.Listed (entries : List (String × Node)) : Prop where
  distinct : (entries.map Prod.fst).Nodup
  plain : ∀ name ∈ entries.map Prod.fst, '/' ∉ name.toList

namespace Audit

variable {ε α β : Type} {x : Audit ε α} {f : α → Audit ε β}

theorem result_bind : (x >>= f).result = x.result.bind fun a => (f a).result := by
  change (bind x f).result = _
  unfold bind
  cases x.result <;> rfl

/-- A check in two parts finds no fault that neither of them finds. -/
theorem result_bind_ne_error {e : ε} (hx : x.result ≠ .error e)
    (hf : ∀ a, (f a).result ≠ .error e) : (x >>= f).result ≠ .error e := by
  rw [result_bind]
  cases hr : x.result with
  | ok a => exact hf a
  | error e' => exact fun h => hx (hr.trans (congrArg Except.error (Except.error.inj h)))

end Audit

namespace Library

/-! ## One file -/

/-- What a file holds is loaded under its stem. -/
def Accepts (l : Library) (e : String × Node) (m : Library) : Prop :=
  ∃ text, e.2.text? = some text ∧ (l.load (fileStem e.1) text).result = .ok m

/-- **Whether a file is accepted does not depend on what is in the library.** -/
theorem Accepts.exists_of {l m : Library} {e : String × Node} (h : l.Accepts e m) (k : Library) :
    ∃ n, k.Accepts e n := by
  obtain ⟨text, htext, hload⟩ := h
  obtain ⟨n, hn⟩ := (exists_ok_call_iff (l := k) (k := .load _ _)).2
    (exists_ok_call_iff.1 ⟨m, hload⟩)
  exact ⟨n, text, htext, hn⟩

/-- What comes of a file that is accepted: the same entry in every library, and no other. -/
theorem Accepts.exists_get? {l m : Library} {e : String × Node} (h : l.Accepts e m) :
    ∃ c, (∀ k n, Library.Accepts k e n → n.get? (fileStem e.1) = some c) ∧
      ∀ name, name ≠ fileStem e.1 → m.get? name = l.get? name := by
  obtain ⟨text, htext, hload⟩ := h
  obtain ⟨c, hc, hinsert⟩ := result_load_eq_ok_iff.1 hload
  refine ⟨c.prepare.value, ?_, fun name hne => ?_⟩
  · rintro k n ⟨text', htext', hload'⟩
    obtain rfl := Option.some.inj (htext.symm.trans htext')
    obtain ⟨c', hc', hinsert'⟩ := result_load_eq_ok_iff.1 hload'
    obtain rfl := Except.ok.inj (hc.symm.trans hc')
    rw [get?_of_insert hinsert', if_pos rfl]
  · rw [get?_of_insert hinsert, if_neg hne.symm]

/-- Loading a text fails for what it says or for its name. -/
theorem result_load_ne_unreadableFile (l : Library) (name text : String) :
    (l.load name text).result ≠ .error .unreadableFile := by
  have hname : ∀ lack, (auditName name lack).result ≠ .error .unreadableFile := by
    intro lack
    unfold auditName
    split <;> simp
  have herror : ∀ {ε α : Type} {f : ε → LoadError} (r : Except ε α),
      (∀ e, f e ≠ .unreadableFile) → r.mapError f ≠ .error .unreadableFile := by
    rintro ε α f (e | a) hf h
    · exact hf e (Except.error.inj h)
    · cases h
  rw [load]
  refine Audit.result_bind_ne_error (hname _) fun _ => Audit.result_bind_ne_error ?_ fun c => ?_
  · rw [result_noted]
    exact herror _ (by simp)
  · rw [insert]
    refine Audit.result_bind_ne_error (hname _) fun _ =>
      Audit.result_bind_ne_error ?_ (by simp [shelve])
    rw [result_noted]
    exact herror _ (by simp)

/-- A file is loaded if it is text and that is loaded under the stem. -/
theorem result_loadFile (l : Library) (path : String) (node : Node) :
    (l.loadFile path (some node)).result =
      match node.text? with
      | some text => (l.load (fileStem path) text).result.map fun m => (fileStem path, m)
      | none => .error .unreadableFile := by
  unfold loadFile readFile
  rw [Option.bind_some, Audit.result_bind]
  cases node.text? with
  | none => rfl
  | some text =>
    change (l.load (fileStem path) text >>= fun l => pure (fileStem path, l)).result = _
    rw [Audit.result_bind]
    rfl

/-! ## One file after the other -/

/-- What is loaded of some files: those that are accepted and come before any that is no text. They
are in the order of their names, their stems are told unless there is one that is no text, each has
its entry, and other entries are left alone. -/
structure LoadsUpTo (l : Library) (files : List (String × Node)) (x : Loading)
    (loaded : List (String × Node)) : Prop where
  sorted : loaded.Pairwise fun e f => e.1 < f.1
  mem_iff : ∀ e, e ∈ loaded ↔
    e ∈ files ∧ (∃ m, l.Accepts e m) ∧ ∀ f ∈ files, f.2.text? = none → e.1 < f.1
  told : (∀ f ∈ files, f.2.text? ≠ none) → x.result = .ok (loaded.map fun e => fileStem e.1)
  untold : (∃ f ∈ files, f.2.text? = none) → x.result = .error .unreadableFile
  entered : ∀ e ∈ loaded, ∀ m, l.Accepts e m →
    x.library.get? (fileStem e.1) = m.get? (fileStem e.1)
  others : ∀ name, name ∉ loaded.map (fun e => fileStem e.1) →
    x.library.get? name = l.get? name

theorem LoadsUpTo.congr {l : Library} {files files' : List (String × Node)} {x : Loading}
    {loaded : List (String × Node)} (h : l.LoadsUpTo files x loaded)
    (hmem : ∀ e, e ∈ files ↔ e ∈ files') : l.LoadsUpTo files' x loaded where
  sorted := h.sorted
  mem_iff := by simpa only [hmem] using h.mem_iff
  told := by simpa only [hmem] using h.told
  untold := by simpa only [hmem] using h.untold
  entered := h.entered
  others := h.others

/-- Files that come in the order of their names, and have stems of their own. -/
structure InOrder (files : List (String × Node)) : Prop where
  sorted : files.Pairwise fun e f => e.1 < f.1
  stems : ∀ e ∈ files, ∀ f ∈ files, fileStem e.1 = fileStem f.1 → e.1 = f.1

theorem InOrder.tail {e : String × Node} {files : List (String × Node)}
    (h : InOrder (e :: files)) : InOrder files where
  sorted := (List.pairwise_cons.1 h.sorted).2
  stems := fun f hf g hg => h.stems f (List.mem_cons_of_mem _ hf) g (List.mem_cons_of_mem _ hg)

section Step

variable {l m : Library} {e : String × Node} {files loaded : List (String × Node)}

variable (l files) in
theorem loadAll_of_unread (he : e.2.text? = none) :
    (l.loadAll (e :: files)).library = l ∧
      (l.loadAll (e :: files)).result = .error .unreadableFile := by
  have h : (l.loadFile e.1 (some e.2)).result = .error .unreadableFile := by
    rw [result_loadFile, he]
  simp only [loadAll, h, and_self]

variable (files) in
theorem loadAll_of_accepts (he : l.Accepts e m) :
    (l.loadAll (e :: files)).library = (m.loadAll files).library ∧
      (l.loadAll (e :: files)).result = (m.loadAll files).result.map (fileStem e.1 :: ·) := by
  obtain ⟨text, htext, hload⟩ := he
  have h : (l.loadFile e.1 (some e.2)).result = .ok (fileStem e.1, m) := by
    rw [result_loadFile, htext]
    simp only [hload, Except.map]
  simp only [loadAll, h, and_self]

variable (files) in
theorem loadAll_of_refused (he : e.2.text? ≠ none) (hno : ∀ m, ¬ l.Accepts e m) :
    (l.loadAll (e :: files)).library = (l.loadAll files).library ∧
      (l.loadAll (e :: files)).result = (l.loadAll files).result := by
  obtain ⟨text, htext⟩ := Option.ne_none_iff_exists'.1 he
  cases hload : (l.load (fileStem e.1) text).result with
  | ok m => exact absurd ⟨text, htext, hload⟩ (hno m)
  | error cause =>
    have h : (l.loadFile e.1 (some e.2)).result = .error cause := by
      rw [result_loadFile, htext]
      simp only [hload, Except.map]
    have hcause : cause ≠ .unreadableFile := fun hc =>
      result_load_ne_unreadableFile l _ text (hc ▸ hload)
    cases cause with
    | unreadableFile => exact absurd rfl hcause
    | _ => simp only [loadAll, h, and_self]

/-- Nothing is loaded from a file on that is no text. -/
theorem loadsUpTo_unread (h : InOrder (e :: files)) (he : e.2.text? = none) :
    l.LoadsUpTo (e :: files) (l.loadAll (e :: files)) [] := by
  obtain ⟨hlibrary, hresult⟩ := loadAll_of_unread l files he
  exact
    { sorted := .nil
      mem_iff := by
        refine fun f => iff_of_false List.not_mem_nil ?_
        rintro ⟨hf, -, hbefore⟩
        have hlt := hbefore e List.mem_cons_self he
        rcases List.mem_cons.1 hf with rfl | hf
        · exact lt_irrefl _ hlt
        · exact lt_asymm hlt ((List.pairwise_cons.1 h.sorted).1 f hf)
      told := fun hall => absurd he (hall e List.mem_cons_self)
      untold := fun _ => hresult
      entered := fun _ hf => absurd hf List.not_mem_nil
      others := fun _ _ => by rw [hlibrary] }

/-- Where one file is accepted, no later one takes the place of its entry. -/
theorem LoadsUpTo.accepted (h : InOrder (e :: files)) (he : l.Accepts e m)
    (hm : m.LoadsUpTo files (m.loadAll files) loaded) :
    l.LoadsUpTo (e :: files) (l.loadAll (e :: files)) (e :: loaded) := by
  obtain ⟨hlibrary, hresult⟩ := loadAll_of_accepts files he
  obtain ⟨c, hentry, hothers⟩ := he.exists_get?
  have htext : e.2.text? ≠ none := by
    obtain ⟨text, htext, -⟩ := he
    rw [htext]
    exact Option.some_ne_none _
  have hfirst := (List.pairwise_cons.1 h.sorted).1
  have hloaded : ∀ f ∈ loaded, f ∈ files := fun f hf => ((hm.mem_iff f).1 hf).1
  have hstem : fileStem e.1 ∉ loaded.map fun f => fileStem f.1 := by
    intro hmem
    obtain ⟨f, hf, hsame⟩ := List.mem_map.1 hmem
    have hname := h.stems f (List.mem_cons_of_mem _ (hloaded f hf)) e List.mem_cons_self hsame
    exact (hfirst f (hloaded f hf)).ne' hname
  exact
    { sorted := List.pairwise_cons.2 ⟨fun f hf => hfirst f (hloaded f hf), hm.sorted⟩
      mem_iff := by
        intro f
        rw [List.mem_cons, hm.mem_iff, List.mem_cons, List.forall_mem_cons]
        constructor
        · rintro (rfl | ⟨hf, ⟨n, hn⟩, hbefore⟩)
          · exact ⟨.inl rfl, ⟨m, he⟩, fun h => absurd h htext, fun g hg _ => hfirst g hg⟩
          · exact ⟨.inr hf, hn.exists_of l, fun h => absurd h htext, hbefore⟩
        · rintro ⟨rfl | hf, ⟨n, hn⟩, -, hbefore⟩
          · exact .inl rfl
          · exact .inr ⟨hf, hn.exists_of m, hbefore⟩
      told := by
        intro hall
        rw [hresult, hm.told fun f hf => hall f (List.mem_cons_of_mem _ hf)]
        rfl
      untold := by
        rintro ⟨f, hf, hnone⟩
        rcases List.mem_cons.1 hf with rfl | hf
        · exact absurd hnone htext
        · rw [hresult, hm.untold ⟨f, hf, hnone⟩]
          rfl
      entered := by
        intro f hf n hn
        rw [hlibrary]
        rcases List.mem_cons.1 hf with rfl | hf
        · rw [hm.others _ hstem, hentry l m he, hentry l n hn]
        · obtain ⟨d, hsame, -⟩ := hn.exists_get?
          obtain ⟨k, hk⟩ := hn.exists_of m
          rw [hm.entered f hf k hk, hsame m k hk, hsame l n hn]
      others := by
        intro name hname
        obtain ⟨hne, hname⟩ := not_or.1 (mt List.mem_cons.2 hname)
        rw [hlibrary, hm.others name hname, hothers name hne] }

/-- A file that is refused makes no difference. -/
theorem LoadsUpTo.refused (he : e.2.text? ≠ none) (hno : ∀ m, ¬ l.Accepts e m)
    (hl : l.LoadsUpTo files (l.loadAll files) loaded) :
    l.LoadsUpTo (e :: files) (l.loadAll (e :: files)) loaded := by
  obtain ⟨hlibrary, hresult⟩ := loadAll_of_refused files he hno
  exact
    { sorted := hl.sorted
      mem_iff := by
        intro f
        rw [hl.mem_iff, List.mem_cons, List.forall_mem_cons]
        constructor
        · rintro ⟨hf, hm, hbefore⟩
          exact ⟨.inr hf, hm, fun h => absurd h he, hbefore⟩
        · rintro ⟨rfl | hf, hm, -, hbefore⟩
          · exact absurd hm (not_exists.2 hno)
          · exact ⟨hf, hm, hbefore⟩
      told := by
        intro hall
        rw [hresult, hl.told fun f hf => hall f (List.mem_cons_of_mem _ hf)]
      untold := by
        rintro ⟨f, hf, hnone⟩
        rcases List.mem_cons.1 hf with rfl | hf
        · exact absurd hnone he
        · rw [hresult, hl.untold ⟨f, hf, hnone⟩]
      entered := by
        rw [hlibrary]
        exact hl.entered
      others := by
        rw [hlibrary]
        exact hl.others }

end Step

/-- **What is loaded of files one after the other.** -/
theorem exists_loadsUpTo_loadAll {files : List (String × Node)} :
    InOrder files → ∀ l : Library, ∃ loaded, l.LoadsUpTo files (l.loadAll files) loaded := by
  induction files with
  | nil =>
    intro _ l
    exact ⟨[], .nil, fun f => iff_of_false List.not_mem_nil fun h => absurd h.1 List.not_mem_nil,
      fun _ => rfl, fun ⟨_, hf, _⟩ => absurd hf List.not_mem_nil,
      fun _ hf => absurd hf List.not_mem_nil, fun _ _ => rfl⟩
  | cons e files ih =>
    intro h l
    by_cases he : e.2.text? = none
    · exact ⟨[], loadsUpTo_unread h he⟩
    · by_cases hm : ∃ m, l.Accepts e m
      · obtain ⟨m, hm⟩ := hm
        obtain ⟨loaded, hloaded⟩ := ih h.tail m
        exact ⟨e :: loaded, hloaded.accepted h hm⟩
      · obtain ⟨loaded, hloaded⟩ := ih h.tail l
        exact ⟨loaded, hloaded.refused he (not_exists.1 hm)⟩

/-! ## A directory -/

theorem mem_scriptsOf {entries : List (String × Node)} {e : String × Node} :
    e ∈ scriptsOf entries ↔ e ∈ entries ∧ hasExtension "json" e.1 = true := by
  rw [scriptsOf, List.mem_filter, Node.sortedEntries, List.mem_mergeSort]

/-- The entries of a directory are sorted by names that differ. -/
theorem pairwise_sortedEntries {entries : List (String × Node)} (h : Node.Listed entries) :
    (Node.sortedEntries entries).Pairwise fun e f => e.1 < f.1 := by
  have hsorted : (Node.sortedEntries entries).Pairwise fun e f => decide (e.1 ≤ f.1) = true :=
    List.pairwise_mergeSort
      (fun _ _ _ hab hbc => decide_eq_true ((of_decide_eq_true hab).trans (of_decide_eq_true hbc)))
      (fun a b => by simpa using le_total a.1 b.1) entries
  have hperm : (Node.sortedEntries entries).Perm entries := List.mergeSort_perm ..
  have hdistinct : (Node.sortedEntries entries).Pairwise fun e f => e.1 ≠ f.1 :=
    List.pairwise_map.1 ((hperm.map Prod.fst).nodup_iff.2 h.distinct)
  exact (hsorted.and hdistinct).imp fun ⟨hle, hne⟩ => (of_decide_eq_true hle).lt_of_ne hne

theorem inOrder_scriptsOf {entries : List (String × Node)} (h : Node.Listed entries) :
    InOrder (scriptsOf entries) where
  sorted := (pairwise_sortedEntries h).filter _
  stems e he f hf hsame := by
    rw [mem_scriptsOf] at he hf
    exact eq_of_fileStem_eq (h.plain _ (List.mem_map_of_mem he.1))
      (h.plain _ (List.mem_map_of_mem hf.1)) he.2 hf.2 hsame

/-- **Of a directory all scripts are loaded that are accepted**, in the order of their names and
whatever else is there, unless some entry is named like a script and is no text: then only those are
that come before it, and their names are lost. -/
theorem loadsUpTo_loadDirectory {entries : List (String × Node)} (h : Node.Listed entries)
    (l : Library) :
    ∃ loaded, l.LoadsUpTo (entries.filter fun e => hasExtension "json" e.1)
      (l.loadDirectory (some (.directory entries))) loaded := by
  obtain ⟨loaded, hloaded⟩ := exists_loadsUpTo_loadAll (inOrder_scriptsOf h) l
  have hmem : ∀ e, e ∈ scriptsOf entries ↔ e ∈ entries.filter fun e => hasExtension "json" e.1 :=
    fun e => by rw [mem_scriptsOf, List.mem_filter]
  exact ⟨loaded, hloaded.congr hmem⟩

/-- A script of one sentence. -/
def remark : String :=
  "\x7b\"conversation\":[\x7b\"id\":0,\"sentences\":[\"Hm.\"]," ++
    "\"canBeUsedAsStartingPoint\":true\x7d]\x7d"

theorem loadsUpTo_loadDirectory_remark :
    let entries : List (String × Node) :=
      [("notes", .directory []), ("b.json", .file remark.toUTF8), ("a.json", .file "?".toUTF8)]
    Node.Listed entries ∧
      ∃ loaded, empty.LoadsUpTo (entries.filter fun e => hasExtension "json" e.1)
        (empty.loadDirectory (some (.directory entries))) loaded := by
  intro entries
  have hlisted : Node.Listed entries := ⟨by decide, by decide⟩
  exact ⟨hlisted, loadsUpTo_loadDirectory hlisted empty⟩

theorem text?_toUTF8 (text : String) : (Node.file text.toUTF8).text? = some text := by
  unfold Node.text? String.fromUTF8?
  dsimp only
  rw [String.toUTF8_eq_toByteArray, dif_pos text.isValidUTF8]
  rfl

theorem scriptsOf_pair (first second : Node) :
    scriptsOf [("a.json", first), ("b.json", second)] =
      [("a.json", first), ("b.json", second)] := by
  have hle : "a.json" ≤ "b.json" := by decide
  have ha : hasExtension "json" "a.json" = true := by decide
  have hb : hasExtension "json" "b.json" = true := by decide
  rw [scriptsOf, Node.sortedEntries,
    List.mergeSort_of_pairwise (List.pairwise_pair.2 (decide_eq_true hle))]
  exact List.filter_eq_self.2 (List.forall_mem_cons.2 ⟨ha, List.forall_mem_singleton.2 hb⟩)

/-- A script that is accepted is not loaded where an entry comes before it that is a directory, or a
file that is no text, and named like a script. -/
theorem remark_not_loaded :
    (∃ m, empty.Accepts ("b.json", .file remark.toUTF8) m) ∧
      ∀ first ∈ [Node.directory [], Node.file ⟨#[0xff]⟩],
        let entries : List (String × Node) :=
          [("a.json", first), ("b.json", .file remark.toUTF8)]
        let x := empty.loadDirectory (some (.directory entries))
        Node.Listed entries ∧ x.result = .error .unreadableFile ∧ x.library = empty := by
  constructor
  · have hok : (empty.load "b" remark).result.isOk = true := by decide +kernel
    cases h : (empty.load "b" remark).result with
    | ok m => exact ⟨m, remark, text?_toUTF8 remark, h⟩
    | error e =>
      rw [h] at hok
      cases hok
  · intro first hfirst entries x
    have htext : first.text? = none := by
      rcases List.mem_pair.1 hfirst with rfl | rfl
      · rfl
      · decide
    obtain ⟨hlibrary, hresult⟩ := loadAll_of_unread empty [("b.json", .file remark.toUTF8)]
      (e := ("a.json", first)) htext
    have hdistinct : ["a.json", "b.json"].Nodup := by decide
    have hplain : ∀ name ∈ ["a.json", "b.json"], '/' ∉ name.toList := by decide
    refine ⟨⟨hdistinct, hplain⟩, ?_, ?_⟩
    · change (empty.loadAll (scriptsOf entries)).result = _
      rw [scriptsOf_pair, hresult]
    · change (empty.loadAll (scriptsOf entries)).library = _
      rw [scriptsOf_pair, hlibrary]

end Library

end Colloquy
