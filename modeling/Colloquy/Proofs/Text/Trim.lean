import Colloquy.Text.Blank
import Colloquy.Text.Case
import Mathlib.Data.List.DropRight
import Mathlib.Data.List.TakeWhile

/-!
# Proofs/Text/Trim — what trimming takes away

What trimming leaves of a text is the part of it that neither begins nor ends with white space and
has nothing but white space before and behind (`trimChars_eq_iff`). So white space around a text
makes no difference (`trimChars_pad`), and trimming takes no account of upper and lower case
(`trimChars_map_toLower`).
-/

namespace Colloquy.Text

/-- Characters that are all white space. -/
def Blank (cs : List Char) : Prop := ∀ c ∈ cs, isSpace c = true

/-- Characters that neither begin nor end with white space. -/
structure Trimmed (cs : List Char) : Prop where
  head : ∀ c ∈ cs.head?, isSpace c = false
  last : ∀ c ∈ cs.getLast?, isSpace c = false

theorem isBlank_iff {s : String} : IsBlank s ↔ Blank s.toList := List.all_eq_true

theorem blank_nil : Blank [] := fun _ h => absurd h List.not_mem_nil

theorem Blank.append {as bs : List Char} (ha : Blank as) (hb : Blank bs) : Blank (as ++ bs) :=
  fun c h => (List.mem_append.1 h).elim (ha c) (hb c)

theorem trimmed_of_forall {cs : List Char} (h : ∀ c ∈ cs, isSpace c = false) : Trimmed cs :=
  ⟨fun c hc => h c (List.mem_of_head? hc), fun c hc => h c (List.mem_of_getLast? hc)⟩

theorem Trimmed.append {as bs : List Char} (ha : Trimmed as) (hb : Trimmed bs) :
    Trimmed (as ++ bs) := by
  constructor
  · intro c hc
    rw [List.head?_append] at hc
    obtain hc | ⟨-, hc⟩ := Option.or_eq_some_iff.1 hc
    · exact ha.head c hc
    · exact hb.head c hc
  · intro c hc
    rw [List.getLast?_append] at hc
    obtain hc | ⟨-, hc⟩ := Option.or_eq_some_iff.1 hc
    · exact hb.last c hc
    · exact ha.last c hc

/-! ## What trimming leaves -/

/-- The two ends are trimmed alike. -/
theorem trimChars_eq_rdropWhile (cs : List Char) :
    trimChars cs = (cs.dropWhile isSpace).rdropWhile isSpace := rfl

/-- What trimming leaves has no white space at its ends. -/
theorem trimmed_trimChars (cs : List Char) : Trimmed (trimChars cs) := by
  rw [trimChars_eq_rdropWhile]
  constructor
  · intro c hc
    obtain ⟨rest, hrest⟩ := List.rdropWhile_prefix isSpace (cs.dropWhile isSpace)
    have hhead : (cs.dropWhile isSpace).head? = some c := by
      rw [← hrest, List.head?_append, hc, Option.some_or]
    have hne : cs.dropWhile isSpace ≠ [] := List.ne_nil_of_mem (List.mem_of_head? hhead)
    have hnot := List.head_dropWhile_not isSpace hne
    rwa [List.head_of_head?_eq_some hhead] at hnot
  · intro c hc
    obtain ⟨hne, rfl⟩ := List.mem_getLast?_eq_getLast hc
    exact Bool.eq_false_iff.2 (List.rdropWhile_last_not isSpace _ hne)

/-- It stands in the text between white space. -/
theorem exists_blank_ends (cs : List Char) :
    ∃ before after, Blank before ∧ Blank after ∧ cs = before ++ trimChars cs ++ after := by
  refine ⟨cs.takeWhile isSpace, (cs.dropWhile isSpace).rtakeWhile isSpace,
    fun _ => List.mem_takeWhile_imp, fun _ => List.mem_rtakeWhile_imp, ?_⟩
  rw [trimChars_eq_rdropWhile, List.append_assoc, List.rdropWhile_append_rtakeWhile,
    List.takeWhile_append_dropWhile]

theorem Trimmed.dropWhile_append {cs : List Char} (h : Trimmed cs) (hne : cs ≠ [])
    (after : List Char) : (cs ++ after).dropWhile isSpace = cs ++ after := by
  obtain ⟨c, cs, rfl⟩ := List.exists_cons_of_ne_nil hne
  exact List.dropWhile_cons_of_neg (Bool.eq_false_iff.1 (h.head c rfl))

theorem Trimmed.rdropWhile_eq {cs : List Char} (h : Trimmed cs) : cs.rdropWhile isSpace = cs :=
  List.rdropWhile_eq_self_iff.2 fun hne =>
    Bool.eq_false_iff.1 (h.last _ (List.getLast?_eq_some_getLast hne))

theorem rdropWhile_append_blank {after : List Char} (h : Blank after) (cs : List Char) :
    (cs ++ after).rdropWhile isSpace = cs.rdropWhile isSpace := by
  rw [List.rdropWhile, List.reverse_append,
    List.dropWhile_append_of_pos fun c hc => h c (List.mem_reverse.1 hc)]
  rfl

/-- **Trimming leaves the part that white space surrounds.** -/
theorem trimChars_eq_iff {cs part : List Char} :
    trimChars cs = part ↔
      Trimmed part ∧ ∃ before after, Blank before ∧ Blank after ∧ cs = before ++ part ++ after := by
  constructor
  · rintro rfl
    exact ⟨trimmed_trimChars cs, exists_blank_ends cs⟩
  · rintro ⟨hpart, before, after, hbefore, hafter, rfl⟩
    by_cases hne : part = []
    · subst hne
      rw [List.append_nil]
      exact trimChars_eq_nil_iff.2 (hbefore.append hafter)
    · rw [trimChars_eq_rdropWhile, List.append_assoc, List.dropWhile_append_of_pos hbefore,
        hpart.dropWhile_append hne, rdropWhile_append_blank hafter, hpart.rdropWhile_eq]

/-- White space around a text makes no difference. -/
theorem trimChars_pad {before after : List Char} (hbefore : Blank before) (hafter : Blank after)
    (cs : List Char) : trimChars (before ++ cs ++ after) = trimChars cs := by
  obtain ⟨before', after', hbefore', hafter', hcs⟩ := exists_blank_ends cs
  refine trimChars_eq_iff.2 ⟨trimmed_trimChars cs, before ++ before', after' ++ after,
    hbefore.append hbefore', hafter'.append hafter, ?_⟩
  conv_lhs => rw [hcs]
  simp only [List.append_assoc]

theorem trimChars_eq_self_iff {cs : List Char} : trimChars cs = cs ↔ Trimmed cs :=
  ⟨fun h => h ▸ trimmed_trimChars cs, fun h =>
    trimChars_eq_iff.2 ⟨h, [], [], blank_nil, blank_nil, by simp⟩⟩

/-- What a text begins with stays, if it is not white space. -/
theorem head?_trimChars_cons {c : Char} (h : isSpace c = false) (cs : List Char) :
    (trimChars (c :: cs)).head? = some c := by
  rw [trimChars_eq_rdropWhile, List.dropWhile_cons_of_neg (Bool.eq_false_iff.1 h)]
  have hne : (c :: cs).rdropWhile isSpace ≠ [] := fun hnil =>
    Bool.eq_false_iff.1 h (List.rdropWhile_eq_nil_iff.1 hnil c (List.mem_cons_self ..))
  obtain ⟨d, rest, hd⟩ := List.exists_cons_of_ne_nil hne
  obtain ⟨after, hafter⟩ := List.rdropWhile_prefix isSpace (c :: cs)
  rw [hd, List.cons_append] at hafter
  rw [hd, List.head?_cons, (List.cons.inj hafter).1]

/-- A text may be trimmed before or after it is cut at a character that is not white space. -/
theorem trimChars_takeWhile {p : Char → Bool} (hp : ∀ c, isSpace c = true → p c = true)
    (cs : List Char) :
    trimChars ((trimChars cs).takeWhile p) = trimChars (cs.takeWhile p) := by
  obtain ⟨before, after, hbefore, hafter, hcs⟩ := exists_blank_ends cs
  have htake : cs.takeWhile p = before ++ (trimChars cs ++ after).takeWhile p := by
    conv_lhs => rw [hcs, List.append_assoc,
      List.takeWhile_append_of_pos fun c hc => hp c (hbefore c hc)]
  rw [htake, List.takeWhile_append]
  split
  · rename_i hall
    rw [List.takeWhile_eq_self_iff.2 fun c hc => hp c (hafter c hc), ← List.append_assoc,
      trimChars_pad hbefore hafter, (List.takeWhile_prefix p).eq_of_length hall]
  · rw [← List.append_nil (before ++ _), trimChars_pad hbefore blank_nil]

/-! ## Upper and lower case -/

theorem isSpace_of_ascii {c : Char} (h : 33 ≤ c.toNat ∧ c.toNat ≤ 126) : isSpace c = false := by
  rw [isSpace, CodeRanges.covers, spaceRanges]
  simp
  omega

/-- White space is neither in upper nor in lower case. -/
theorem isSpace_toLower (c : Char) : isSpace c.toLower = isSpace c := by
  by_cases h : 65 ≤ c.toNat ∧ c.toNat ≤ 90
  · have hlower := toNat_toLower_of_upper h
    rw [isSpace_of_ascii (by omega), isSpace_of_ascii (by omega)]
  · rw [toLower_of_not_upper h]

/-- Trimming takes no account of upper and lower case. -/
theorem trimChars_map_toLower (cs : List Char) :
    trimChars (cs.map Char.toLower) = (trimChars cs).map Char.toLower := by
  have hspace : isSpace ∘ Char.toLower = isSpace := funext isSpace_toLower
  simp only [trimChars, List.dropWhile_map, ← List.map_reverse, hspace]

/-- Letters in lower case. -/
def Lower (cs : List Char) : Prop := ∀ c ∈ cs, 97 ≤ c.toNat ∧ c.toNat ≤ 122

instance (cs : List Char) : Decidable (Lower cs) := List.decidableBAll (fun _ => _) cs

namespace Lower

variable {as bs cs : List Char}

theorem append (ha : Lower as) (hb : Lower bs) : Lower (as ++ bs) :=
  fun c h => (List.mem_append.1 h).elim (ha c) (hb c)

theorem isSpace (h : Lower cs) {c : Char} (hc : c ∈ cs) : isSpace c = false :=
  isSpace_of_ascii (by
    have := h c hc
    omega)

theorem trimmed (h : Lower cs) : Trimmed cs := trimmed_of_forall fun _ => h.isSpace

theorem map_toLower (h : Lower cs) : cs.map Char.toLower = cs := by
  refine (List.map_congr_left fun c hc => ?_).trans (List.map_id _)
  have := h c hc
  exact toLower_of_not_upper (by omega)

end Lower

end Colloquy.Text
