import Colloquy.Proofs.Registrations

/-!
# Proofs/Manifest — what is loaded of a manifest

The sets of a manifest are registered one after the other, the characters before the themes and
otherwise in any order (`Manifest.Visits`), up to the first that is unfit. A manifest whose sets are
all fit comes to the same in every order. Of any other one the sets that were visited before the
first unfit one stay, and they make a difference unless they were there already; `half_loaded` is
such a manifest. Main statement: `Sprites.takesIn`.
-/

namespace Colloquy

namespace Sprites

variable {s : Sprites} {r q : Registration} {rs before : List Registration}
  {family : SpriteFamily}

/-! ## The sets of a manifest -/

/-- The registrations of sets of a family. -/
def registrations (family : SpriteFamily) (sets : List (String × List SpriteEntry)) :
    List Registration :=
  sets.map fun e => ⟨family, e.1, e.2⟩

theorem registerAll_eq (s : Sprites) (family : SpriteFamily)
    (sets : List (String × List SpriteEntry)) :
    s.registerAll family sets = s.callAll (registrations family sets) := by
  induction sets generalizing s with
  | nil => rfl
  | cons e sets ih =>
    rw [registerAll, registrations, List.map_cons, callAll]
    simp only [call, ih]
    rfl

theorem family_of_mem_registrations {sets : List (String × List SpriteEntry)}
    (h : r ∈ registrations family sets) : r.family = family := by
  obtain ⟨e, -, rfl⟩ := List.mem_map.1 h
  rfl

theorem apart_registrations (sets : Registry (List SpriteEntry)) :
    Apart (registrations family sets.entries) := by
  refine List.pairwise_map.2 (sets.sorted.imp fun {a b} hlt hc => ?_)
  have hset : b.1 = a.1 := hc.2
  exact String.lt_irrefl b.1 (hset ▸ hlt)

namespace Manifest

variable {m : Manifest}

/-- The registrations that a manifest asks for, in the order of the names. -/
def all (m : Manifest) : List Registration :=
  registrations .character m.characters.entries ++ registrations .theme m.themes.entries

/-- An order in which the sets of a manifest may be visited: the characters come before the themes,
and otherwise they come in any order. -/
def Visits (m : Manifest) (rs : List Registration) : Prop :=
  ∃ characters themes, characters.Perm (registrations .character m.characters.entries) ∧
    themes.Perm (registrations .theme m.themes.entries) ∧ rs = characters ++ themes

/-- Every set of a manifest is fit. -/
def Fit (m : Manifest) : Prop := ∀ r ∈ m.all, r.Fit

/-- A fit set that may be visited before an unfit one, if there is one: a character, or a theme if
all characters are fit. -/
structure Early (m : Manifest) (r : Registration) : Prop where
  mem : r ∈ m.all
  fit : r.Fit
  characters : r.family = .theme → ∀ q ∈ registrations .character m.characters.entries, q.Fit

theorem visits_all (m : Manifest) : m.Visits m.all := ⟨_, _, .refl _, .refl _, rfl⟩

theorem Visits.perm (h : m.Visits rs) : rs.Perm m.all := by
  obtain ⟨characters, themes, hcharacters, hthemes, rfl⟩ := h
  exact hcharacters.append hthemes

theorem apart_all (m : Manifest) : Apart m.all := by
  refine List.pairwise_append.2
    ⟨apart_registrations m.characters, apart_registrations m.themes, fun r hr q hq hc => ?_⟩
  have hfamily : SpriteFamily.theme = .character := by
    rw [← family_of_mem_registrations hq, ← family_of_mem_registrations hr]
    exact hc.1
  cases hfamily

theorem Visits.apart (h : m.Visits rs) : Apart rs := m.apart_all.perm h.perm.symm

theorem Visits.fit_iff (h : m.Visits rs) : (∀ r ∈ rs, r.Fit) ↔ m.Fit :=
  forall_congr' fun _ => imp_congr_left h.perm.mem_iff

/-- Only early sets are visited before the first unfit one. -/
theorem Visits.early (h : m.Visits rs) (hfirst : FirstUnfit rs before q) (hr : r ∈ before) :
    m.Early r := by
  have hmem : r ∈ m.all := by
    obtain ⟨-, -, rest, rfl⟩ := hfirst
    exact h.perm.mem_iff.1 (List.mem_append_left _ hr)
  refine ⟨hmem, hfirst.fit r hr, fun htheme p hp => ?_⟩
  obtain ⟨characters, themes, hcharacters, -, rfl⟩ := h
  obtain ⟨hfit, -, rest, hsplit⟩ := hfirst
  obtain ⟨middle, rfl, -⟩ | ⟨middle, rfl, -⟩ := List.append_eq_append_iff.1 hsplit
  · exact hfit p (List.mem_append_left _ (hcharacters.mem_iff.2 hp))
  · have hcharacter := family_of_mem_registrations
      (hcharacters.mem_iff.1 (List.mem_append_left middle hr))
    rw [htheme] at hcharacter
    cases hcharacter

/-- In some order an early set is visited before the first unfit one. -/
theorem Early.exists_visits (h : m.Early r) (hm : ¬ m.Fit) :
    ∃ rs before q, m.Visits rs ∧ FirstUnfit rs before q ∧ r ∈ before := by
  -- up to the set and with it all are fit, so there is an unfit one among those that follow
  have hunfit : ∀ {ps rest}, m.Visits (ps ++ r :: rest) → (∀ p ∈ ps, p.Fit) →
      ∃ before q, FirstUnfit (ps ++ r :: rest) before q ∧ r ∈ before := by
    intro ps rest hvisits hps
    have hrest : ¬ ∀ p ∈ rest, p.Fit := fun hrest => hm <| hvisits.fit_iff.1 <|
      List.forall_mem_append.2 ⟨hps, List.forall_mem_cons.2 ⟨h.fit, hrest⟩⟩
    obtain ⟨before, q, hfirst⟩ := exists_firstUnfit hrest
    exact ⟨_, q, (hfirst.cons h.fit).append hps, List.mem_append_right ps List.mem_cons_self⟩
  obtain hr | hr := List.mem_append.1 h.mem
  · obtain ⟨as, bs, hsplit⟩ := List.append_of_mem hr
    have hvisits : m.Visits ([] ++ r :: (as ++ bs ++ registrations .theme m.themes.entries)) :=
      ⟨r :: (as ++ bs), _, hsplit ▸ List.perm_middle.symm, .refl _, rfl⟩
    obtain ⟨before, q, hfirst, hmem⟩ := hunfit hvisits fun _ hp => absurd hp List.not_mem_nil
    exact ⟨_, before, q, hvisits, hfirst, hmem⟩
  · obtain ⟨as, bs, hsplit⟩ := List.append_of_mem hr
    have hvisits : m.Visits (registrations .character m.characters.entries ++ r :: (as ++ bs)) :=
      ⟨_, r :: (as ++ bs), .refl _, hsplit ▸ List.perm_middle.symm, rfl⟩
    obtain ⟨before, q, hfirst, hmem⟩ :=
      hunfit hvisits (h.characters (family_of_mem_registrations hr))
    exact ⟨_, before, q, hvisits, hfirst, hmem⟩

end Manifest

theorem loadManifest_eq (s : Sprites) (m : Manifest) : s.loadManifest m = s.callAll m.all := by
  rw [Manifest.all, callAll_append, loadManifest, registerAll_eq]
  cases h : (s.callAll (registrations .character m.characters.entries)).result <;>
    simp only [h, registerAll_eq]

/-! ## The text of a manifest -/

/-- The manifest that a text writes. -/
def manifest? (text : String) : Option Manifest := (Ron.parse? text).bind manifestOfRon

theorem exists_manifest_of_entries {text : String}
    {characters themes : List (String × List SpriteEntry)}
    (h : (manifest? text).map (fun m => (m.characters.entries, m.themes.entries)) =
      some (characters, themes)) :
    ∃ m, manifest? text = some m ∧ m.characters.entries = characters ∧
      m.themes.entries = themes := by
  obtain ⟨m, hm, hentries⟩ := Option.map_eq_some_iff.1 h
  obtain ⟨hcharacters, hthemes⟩ := Prod.ext_iff.1 hentries
  exact ⟨m, hm, hcharacters, hthemes⟩

/-- What may come of loading the manifest that a text writes, its sets being visited in some
order. -/
inductive Loads (s : Sprites) (text : String) : Loading → Prop
  | malformed (h : manifest? text = none) : Loads s text ⟨s, .error .malformed, []⟩
  | visited {m : Manifest} {rs : List Registration} (h : manifest? text = some m)
    (hrs : m.Visits rs) : Loads s text (s.callAll rs)

/-- What is left of a loading that ended with an error: the sets visited before the first unfit one
are there, and all else is as before. -/
structure BreaksOff (s : Sprites) (rs : List Registration) (e : SpriteError) (t : Sprites)
    (before : List Registration) (q : Registration) : Prop where
  first : FirstUnfit rs before q
  fault : ∀ s : Sprites, (s.call q).result = .error e
  stays : t = s.afterAll before
  gains : s.Gains before t
  alike_iff : s.Alike t ↔ ∀ r ∈ before, s.Shows r

/-- What the sprites take in of the manifest that a text writes, in whatever order its sets are
visited: all of it if its sets are all fit, what was visited before the first unfit one if not, and
nothing if there is no manifest. -/
structure TakesIn (s : Sprites) (text : String) : Prop where
  loads : s.Loads text (s.loadText text)
  succeeds_iff : ∀ x, s.Loads text x →
    (x.result = .ok () ↔ ∃ m, manifest? text = some m ∧ m.Fit)
  agree : ∀ x y, s.Loads text x → s.Loads text y → x.result = .ok () →
    y.result = .ok () ∧ y.sprites = x.sprites ∧ y.notes.Perm x.notes
  complete : ∀ x m, s.Loads text x → x.result = .ok () → manifest? text = some m →
    s.Gains m.all x.sprites
  failed : ∀ x e, s.Loads text x → x.result = .error e →
    manifest? text = none ∧ e = .malformed ∧ x.sprites = s ∨
      ∃ m rs before q, manifest? text = some m ∧ m.Visits rs ∧
        s.BreaksOff rs e x.sprites before q
  spared_iff : ∀ m, manifest? text = some m → ¬ m.Fit →
    ((∀ x, s.Loads text x → s.Alike x.sprites) ↔ ∀ r, m.Early r → s.Shows r)

section

variable {text : String} {x : Loading} {m : Manifest}

theorem loads_loadText (s : Sprites) (text : String) : s.Loads text (s.loadText text) := by
  have htext : s.loadText text =
      (manifest? text).elim ⟨s, .error .malformed, []⟩ s.loadManifest := by
    unfold loadText manifest?
    cases (Ron.parse? text).bind manifestOfRon <;> rfl
  cases h : manifest? text with
  | none =>
    rw [htext, h]
    exact .malformed h
  | some m =>
    rw [htext, h, Option.elim_some, loadManifest_eq]
    exact .visited h m.visits_all

theorem Loads.exists_visits (hx : s.Loads text x) (h : manifest? text = some m) :
    ∃ rs, m.Visits rs ∧ x = s.callAll rs := by
  cases hx with
  | malformed h' => cases h.symm.trans h'
  | visited h' hrs =>
    obtain rfl := Option.some.inj (h.symm.trans h')
    exact ⟨_, hrs, rfl⟩

theorem Loads.eq_of_malformed (hx : s.Loads text x) (h : manifest? text = none) :
    x = ⟨s, .error .malformed, []⟩ := by
  cases hx with
  | malformed => rfl
  | visited h' => cases h.symm.trans h'

/-- **A manifest whose sets are all fit comes to the same in every order.** -/
theorem Manifest.Visits.completes (h : m.Visits rs) (hm : m.Fit) (s : Sprites) :
    (s.callAll rs).result = .ok () ∧ (s.callAll rs).sprites = s.afterAll m.all ∧
      (s.callAll rs).notes.Perm (m.all.flatMap fun r => (s.call r).notes) := by
  have hfit := h.fit_iff.2 hm
  obtain ⟨hresult, hsprites⟩ := callAll_of_fit (s := s) hfit
  refine ⟨hresult, ?_, ?_⟩
  · rw [hsprites, afterAll_perm h.apart h.perm]
  · rw [notes_callAll h.apart hfit]
    exact h.perm.flatMap_right _

/-- **A manifest with an unfit set is loaded up to the first one** that is visited. -/
theorem Manifest.Visits.breaksOff (h : m.Visits rs) (hfirst : FirstUnfit rs before q)
    (s : Sprites) : ∃ e, (s.callAll rs).result = .error e ∧
      s.BreaksOff rs e (s.callAll rs).sprites before q := by
  obtain ⟨e, he⟩ := exists_error_of_not_fit hfirst.unfit
  obtain ⟨hresult, hsprites⟩ := callAll_of_firstUnfit (s := s) hfirst he
  have hapart : Apart before := by
    obtain ⟨-, -, rest, rfl⟩ := hfirst
    exact (List.pairwise_append.1 h.apart).1
  have hgains : s.Gains before (s.callAll rs).sprites := by
    rw [hsprites]
    exact gains_afterAll hapart hfirst.fit s
  exact ⟨e, hresult, hfirst, he, hsprites, hgains, hgains.alike_iff⟩

theorem Loads.result_eq_ok_iff (hx : s.Loads text x) :
    x.result = .ok () ↔ ∃ m, manifest? text = some m ∧ m.Fit := by
  cases hx with
  | malformed h => simp [h]
  | @visited m rs h hrs =>
    simp only [h, Option.some.injEq, exists_eq_left']
    constructor
    · intro hok
      by_contra hm
      obtain ⟨before, q, hfirst⟩ := exists_firstUnfit (mt hrs.fit_iff.1 hm)
      obtain ⟨e, herror, -⟩ := hrs.breaksOff hfirst s
      cases hok.symm.trans herror
    · intro hm
      exact (hrs.completes hm s).1

/-- A manifest with an unfit set changes nothing, in whatever order its sets are visited, exactly if
every set that may be visited before an unfit one is there already. -/
theorem alike_of_loads_iff (h : manifest? text = some m) (hm : ¬ m.Fit) :
    (∀ x, s.Loads text x → s.Alike x.sprites) ↔ ∀ r, m.Early r → s.Shows r := by
  constructor
  · intro halike r hearly
    obtain ⟨rs, before, q, hvisits, hfirst, hr⟩ := hearly.exists_visits hm
    obtain ⟨e, -, hbreaks⟩ := hvisits.breaksOff hfirst s
    exact hbreaks.alike_iff.1 (halike _ (.visited h hvisits)) r hr
  · intro hshows x hx
    obtain ⟨rs, hvisits, rfl⟩ := hx.exists_visits h
    obtain ⟨before, q, hfirst⟩ := exists_firstUnfit (mt hvisits.fit_iff.1 hm)
    obtain ⟨e, -, hbreaks⟩ := hvisits.breaksOff hfirst s
    exact hbreaks.alike_iff.2 fun r hr => hshows r (hvisits.early hfirst hr)

end

/-- **A manifest whose sets are all fit is loaded whole**, and comes to the same in whatever order
they are visited. Of any other one the sets that were visited before the first unfit one stay, each
as a whole, and nothing else changes; so every sprite is found as before exactly if those sets were
there already, and whatever the order exactly if that holds of each set that may be visited before
an unfit one. A text that writes no manifest changes nothing. -/
theorem takesIn (s : Sprites) (text : String) : s.TakesIn text where
  loads := loads_loadText s text
  succeeds_iff _ hx := hx.result_eq_ok_iff
  agree x y hx hy hok := by
    obtain ⟨m, h, hm⟩ := hx.result_eq_ok_iff.1 hok
    obtain ⟨rs, hrs, rfl⟩ := hx.exists_visits h
    obtain ⟨qs, hqs, rfl⟩ := hy.exists_visits h
    obtain ⟨-, hsprites, hnotes⟩ := hrs.completes hm s
    obtain ⟨hok', hsprites', hnotes'⟩ := hqs.completes hm s
    exact ⟨hok', hsprites'.trans hsprites.symm, hnotes'.trans hnotes.symm⟩
  complete x m hx hok h := by
    obtain ⟨m', h', hm⟩ := hx.result_eq_ok_iff.1 hok
    obtain rfl := Option.some.inj (h.symm.trans h')
    obtain ⟨rs, hrs, rfl⟩ := hx.exists_visits h
    rw [(hrs.completes hm s).2.1]
    exact gains_afterAll m.apart_all hm s
  failed x e hx herror := by
    cases h : manifest? text with
    | none =>
      obtain rfl := hx.eq_of_malformed h
      exact .inl ⟨rfl, (Except.error.inj herror).symm, rfl⟩
    | some m =>
      obtain ⟨rs, hrs, rfl⟩ := hx.exists_visits h
      have hunfit : ¬ ∀ r ∈ rs, r.Fit := fun hfit => by
        cases herror.symm.trans (callAll_of_fit hfit).1
      obtain ⟨before, q, hfirst⟩ := exists_firstUnfit hunfit
      obtain ⟨e', herror', hbreaks⟩ := hrs.breaksOff hfirst s
      obtain rfl := Except.error.inj (herror.symm.trans herror')
      exact .inr ⟨m, rs, before, q, rfl, hrs, hbreaks⟩
  spared_iff _ h hm := alike_of_loads_iff h hm

/-- A manifest of two characters, one of them without sprites, and a theme. -/
def wardrobe : String :=
  "(characters: \x7b\"Mira\": [(name: \"Default\", image: \"mira.png\")], \"Bob\": []\x7d, " ++
    "themes: \x7b\"night\": [(name: \"box\", image: \"night.png\")]\x7d)"

theorem takesIn_wardrobe :
    let s := empty.after ⟨.character, "Mira", [⟨"Angry", "angry.png"⟩]⟩
    (s.resolve .character "Mira" "Angry").value = some "angry.png" ∧
      ∀ x, s.Loads wardrobe x → x.result = .ok () ∧
        (x.sprites.resolve .character "Mira" "Angry").value = none ∧
        (x.sprites.resolve .character "Mira" "Default").value = some "mira.png" ∧
        (x.sprites.resolve .theme "night" "box").value = some "night.png" := by
  intro s
  refine ⟨by decide +kernel, fun x hx => ?_⟩
  have hentries :
      (manifest? wardrobe).map (fun m => (m.characters.entries, m.themes.entries)) =
        some ([("Bob", []), ("Mira", [⟨"Default", "mira.png"⟩])],
          [("night", [⟨"box", "night.png"⟩])]) := by
    decide +kernel
  obtain ⟨m, hm, hcharacters, hthemes⟩ := exists_manifest_of_entries hentries
  have hall : m.all = [⟨.character, "Bob", []⟩, ⟨.character, "Mira", [⟨"Default", "mira.png"⟩]⟩,
      ⟨.theme, "night", [⟨"box", "night.png"⟩]⟩] := by
    rw [Manifest.all, hcharacters, hthemes]
    rfl
  have hfit : m.Fit := by
    rw [Manifest.Fit, hall]
    decide +kernel
  have hok : x.result = .ok () := ((takesIn s wardrobe).succeeds_iff x hx).2 ⟨m, hm, hfit⟩
  have hgains := (takesIn s wardrobe).complete x m hx hok hm
  rw [hall] at hgains
  have hmira := hgains.shows ⟨.character, "Mira", [⟨"Default", "mira.png"⟩]⟩ (by simp)
  have hnight := hgains.shows ⟨.theme, "night", [⟨"box", "night.png"⟩]⟩ (by simp)
  refine ⟨hok, Option.eq_none_iff_forall_ne_some.2 fun image himage => ?_,
    (hmira _ _).2 (by simp), (hnight _ _).2 (by simp)⟩
  simpa using (hmira "Angry" image).1 himage

/-- A manifest of a character that is fit and a theme that is not. -/
def halfFit : String :=
  "(characters: \x7b\"Mira\": [(name: \"Default\", image: \"mira.png\")]\x7d, " ++
    "themes: \x7b\"dark\": [(name: \"box\", image: \"\")]\x7d)"

/-- Where a theme is unfit the characters stay. -/
theorem half_loaded :
    let x := empty.loadText halfFit
    (∀ y, empty.Loads halfFit y → y = x) ∧ x.result = .error (.missingImage "dark" "box") ∧
      (empty.resolve .character "Mira" "Default").value = none ∧
      (x.sprites.resolve .character "Mira" "Default").value = some "mira.png" := by
  intro x
  have hentries :
      (manifest? halfFit).map (fun m => (m.characters.entries, m.themes.entries)) =
        some ([("Mira", [⟨"Default", "mira.png"⟩])], [("dark", [⟨"box", ""⟩])]) := by
    decide +kernel
  obtain ⟨m, hm, hcharacters, hthemes⟩ := exists_manifest_of_entries hentries
  -- with one set of each family there is one order only
  have hone : ∀ y, empty.Loads halfFit y → y = empty.callAll
      [⟨.character, "Mira", [⟨"Default", "mira.png"⟩]⟩, ⟨.theme, "dark", [⟨"box", ""⟩]⟩] := by
    intro y hy
    obtain ⟨rs, ⟨characters, themes, hcs, hts, rfl⟩, rfl⟩ := hy.exists_visits hm
    rw [hcharacters] at hcs
    rw [hthemes] at hts
    rw [List.perm_singleton.1 hcs, List.perm_singleton.1 hts]
    rfl
  have hx := hone x (loads_loadText empty halfFit)
  refine ⟨fun y hy => (hone y hy).trans hx.symm, ?_, rfl, ?_⟩
  · rw [hx]
    decide +kernel
  · rw [hx]
    decide +kernel

end Sprites

end Colloquy
