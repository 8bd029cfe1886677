import Acta.RoundTrip.Profile
import Mathlib.Algebra.Order.BigOperators.Group.Finset
import Mathlib.Algebra.Order.Ring.Int

/-!
# The bounded dictionary

While it profiles a column the writer collects the distinct keys in a table: a hash map that sends
each stored key to its position, the keys themselves, the position of every key pushed so far, and a
count of the bytes that were copied.  Past either cap the whole table is given up for good.

`DictionaryTable` has the map in it and refines `DictionaryBuilder`, which looks a key up among the
stored ones (`DictionaryTable.Refines`).  What either keeps depends on the set of keys alone: the
table survives exactly where that set is within both caps (`Counted`), and then it is the list of
first occurrences.
-/

namespace Acta

open Machine Wire Candidates

/-! ### First occurrences -/

section FirstOccurrences

variable {α : Type*} [BEq α] [LawfulBEq α] {xs : List α} {x : α}

theorem eraseDups_concat_of_mem (h : x ∈ xs) : (xs ++ [x]).eraseDups = xs.eraseDups := by
  rw [List.eraseDups_append, List.removeAll, List.filter_cons_of_neg (by simpa using h)]
  exact List.append_nil _

theorem eraseDups_concat_of_notMem (h : x ∉ xs) :
    (xs ++ [x]).eraseDups = xs.eraseDups ++ [x] := by
  rw [List.eraseDups_append, List.removeAll, List.filter_cons_of_pos (by simpa using h)]
  rfl

theorem nodup_eraseDups (xs : List α) : xs.eraseDups.Nodup := by
  induction xs using List.reverseRecOn with
  | nil => exact List.nodup_nil
  | append_singleton xs x ih =>
    by_cases hx : x ∈ xs
    · rwa [eraseDups_concat_of_mem hx]
    · rw [eraseDups_concat_of_notMem hx, ← List.concat_eq_append]
      exact ih.concat fun h ↦ hx (List.mem_eraseDups.mp h)

theorem toFinset_eraseDups [DecidableEq α] (xs : List α) : xs.eraseDups.toFinset = xs.toFinset := by
  ext x
  rw [List.mem_toFinset, List.mem_toFinset, List.mem_eraseDups]

/-- A new element is found at the end, and nothing else is found elsewhere than before. -/
theorem idxOf?_concat (h : x ∉ xs) (y : α) :
    (xs ++ [x]).idxOf? y = if x == y then some xs.length else xs.idxOf? y := by
  have happend : (xs ++ [x]).idxOf? y =
      (xs.idxOf? y).or (([x].idxOf? y).map (· + xs.length)) := List.findIdx?_append
  rw [happend, List.idxOf?_cons]
  by_cases hxy : (x == y) = true
  · rw [if_pos hxy, if_pos hxy, ← eq_of_beq hxy, List.idxOf?_eq_none_iff.mpr h, Option.none_or,
      Option.map_some, Nat.zero_add]
  · rw [if_neg hxy, if_neg hxy]
    exact Option.or_none

end FirstOccurrences

/-! ### The table with its map -/

namespace Candidates

/-- The block-local dictionary as the writer keeps it. -/
structure DictionaryTable where
  map : Std.HashMap Bytes UInt16 := ∅
  values : List Bytes := []
  indices : List UInt16 := []
  copiedBytes : ℕ := 0
  exceeded : Bool := false

namespace DictionaryTable

/-- Take in one key.  A position must fit its stored integer. -/
def push (table : DictionaryTable) (key : Bytes) : Result DictionaryTable :=
  if table.exceeded then
    .ok table
  else
    match table.map[key]? with
    | some index => .ok { table with indices := table.indices ++ [index] }
    | none =>
      if table.values.length = distinctValueLimit ∨
          distinctByteLimit < saturatingAdd table.copiedBytes key.length then
        -- Past either cap the partial table is released.
        .ok { table with map := ∅, values := [], indices := [], exceeded := true }
      else do
        failIf (2 ^ 16 ≤ table.values.length) (resource "a dictionary index")
        let index := UInt16.ofNat table.values.length
        return { table with
          map := table.map.insert key index
          values := table.values ++ [key]
          copiedBytes := saturatingAdd table.copiedBytes key.length
          indices := table.indices ++ [index] }

def finish (table : DictionaryTable) : Option DictionaryProfile :=
  if table.exceeded then none else
    some { values := table.values, indices := table.indices.map UInt16.toNat }

/-- A table and a builder that have seen the same keys. -/
structure Refines (table : DictionaryTable) (builder : DictionaryBuilder) : Prop where
  values : table.values = builder.values
  indices : table.indices.map UInt16.toNat = builder.indices
  copiedBytes : table.copiedBytes = builder.copiedBytes
  exceeded : table.exceeded = builder.exceeded
  /-- The map sends each stored key to its position. -/
  lookup : table.exceeded = false →
    ∀ key, table.map[key]? = (builder.values.idxOf? key).map UInt16.ofNat
  length_le : builder.values.length ≤ distinctValueLimit

theorem refines_start : Refines {} {} where
  values := rfl
  indices := rfl
  copiedBytes := rfl
  exceeded := rfl
  lookup _ _ := Std.HashMap.getElem?_empty
  length_le := Nat.zero_le _

/-- **A key is pushed into both alike.** -/
theorem Refines.push {table : DictionaryTable} {builder : DictionaryBuilder}
    (h : Refines table builder) (key : Bytes) :
    ∃ table', table.push key = .ok table' ∧ Refines table' (builder.push key) := by
  rcases hexceeded : table.exceeded with - | -
  case true =>
    rw [DictionaryTable.push, if_pos hexceeded, DictionaryBuilder.push,
      if_pos (h.exceeded.symm.trans hexceeded)]
    exact ⟨table, rfl, h⟩
  have hlookup := h.lookup hexceeded
  have hbound := h.length_le
  have hrunning : ¬table.exceeded = true := by
    rw [hexceeded]
    exact Bool.false_ne_true
  rw [DictionaryTable.push, if_neg hrunning, DictionaryBuilder.push,
    if_neg fun hover ↦ hrunning (h.exceeded.trans hover), hlookup key]
  rcases hfound : builder.values.idxOf? key with - | index
  case some =>
    -- The stored position is the one that the builder finds.
    obtain ⟨hlt, -⟩ := List.idxOf?_eq_some_iff.mp hfound
    have hindex : (UInt16.ofNat index).toNat = index := by
      rw [UInt16.toNat_ofNat', Nat.mod_eq_of_lt]
      rw [distinctValueLimit] at hbound
      omega
    refine ⟨_, rfl, h.values, ?_, h.copiedBytes, h.exceeded, h.lookup, hbound⟩
    rw [List.map_append, h.indices]
    exact congrArg (builder.indices ++ [·]) hindex
  case none =>
    have hnew : key ∉ builder.values := List.idxOf?_eq_none_iff.mp hfound
    simp only [Option.map_none, h.values, h.copiedBytes]
    by_cases hfull : builder.values.length = distinctValueLimit ∨
        distinctByteLimit < saturatingAdd builder.copiedBytes key.length
    · rw [if_pos hfull, if_pos hfull]
      refine ⟨_, rfl, rfl, rfl, rfl, rfl, fun hover ↦ ?_, Nat.zero_le _⟩
      cases hover
    · obtain ⟨hcount, -⟩ := not_or.mp hfull
      have hposition : ¬2 ^ 16 ≤ builder.values.length := by
        rw [distinctValueLimit] at hbound
        omega
      have hindex : (UInt16.ofNat builder.values.length).toNat = builder.values.length := by
        rw [UInt16.toNat_ofNat', Nat.mod_eq_of_lt (Nat.not_le.mp hposition)]
      rw [if_neg hfull, if_neg hfull, failIf_neg hposition, ok_bind]
      refine ⟨_, rfl, rfl, ?_, rfl, h.exceeded, fun _ other ↦ ?_, ?_⟩
      · rw [List.map_append, h.indices]
        exact congrArg (builder.indices ++ [·]) hindex
      · show (table.map.insert key _)[other]? =
          ((builder.values ++ [key]).idxOf? other).map UInt16.ofNat
        rw [Std.HashMap.getElem?_insert, hlookup other, idxOf?_concat hnew]
        split
        · rfl
        · rfl
      · rw [List.length_append, List.length_singleton]
        omega

/-- **The table refines the builder** throughout a run. -/
theorem Refines.foldlM_push {table : DictionaryTable} {builder : DictionaryBuilder}
    (h : Refines table builder) (keys : List Bytes) :
    ∃ table', keys.foldlM DictionaryTable.push table = .ok table' ∧
      Refines table' (keys.foldl DictionaryBuilder.push builder) := by
  induction keys generalizing table builder with
  | nil => exact ⟨table, rfl, h⟩
  | cons key keys ih =>
    obtain ⟨next, hnext, hrefines⟩ := h.push key
    rw [List.foldlM_cons, hnext, ok_bind]
    exact ih hrefines

theorem Refines.finish {table : DictionaryTable} {builder : DictionaryBuilder}
    (h : Refines table builder) : table.finish = builder.finish := by
  rw [DictionaryTable.finish, DictionaryBuilder.finish, h.exceeded, h.values, h.indices]

end DictionaryTable

/-! ### What fits the caps -/

/-- Keys that are few and short enough for a dictionary: no more of them are distinct than one cap
says, and these do not have more bytes than the other. -/
def FitsDictionary (keys : List Bytes) : Prop :=
  keys.toFinset.card ≤ distinctValueLimit ∧
    ∑ key ∈ keys.toFinset, key.length ≤ distinctByteLimit

theorem fitsDictionary_iff (keys : List Bytes) :
    FitsDictionary keys ↔ keys.eraseDups.length ≤ distinctValueLimit ∧
      (keys.eraseDups.map List.length).sum ≤ distinctByteLimit := by
  rw [FitsDictionary, ← toFinset_eraseDups, List.toFinset_card_of_nodup (nodup_eraseDups keys),
    List.sum_toFinset _ (nodup_eraseDups keys)]

/-- Keys that do not fit are no better off with another one. -/
theorem FitsDictionary.of_concat {keys : List Bytes} {key : Bytes}
    (h : FitsDictionary (keys ++ [key])) : FitsDictionary keys := by
  obtain ⟨hcount, hbytes⟩ := (fitsDictionary_iff _).mp h
  refine (fitsDictionary_iff keys).mpr ?_
  by_cases hmem : key ∈ keys
  · rw [eraseDups_concat_of_mem hmem] at hcount hbytes
    exact ⟨hcount, hbytes⟩
  · rw [eraseDups_concat_of_notMem hmem] at hcount hbytes
    rw [List.length_append] at hcount
    rw [List.map_append, List.sum_append] at hbytes
    exact ⟨by omega, by omega⟩

/-- What a builder says of the keys it has seen: it has given up exactly where they do not fit, and
otherwise it holds their first occurrences and has counted the bytes of these. -/
structure Counted (keys : List Bytes) (builder : DictionaryBuilder) : Prop where
  exceeded : builder.exceeded = true ↔ ¬FitsDictionary keys
  values : builder.exceeded = false → builder.values = keys.eraseDups
  copiedBytes : builder.exceeded = false →
    builder.copiedBytes = (keys.eraseDups.map List.length).sum

theorem Counted.push {keys : List Bytes} {builder : DictionaryBuilder} (h : Counted keys builder)
    (key : Bytes) : Counted (keys ++ [key]) (builder.push key) := by
  rcases hexceeded : builder.exceeded with - | -
  case true =>
    -- Giving up is final.
    have hover := h.exceeded.mp hexceeded
    rw [DictionaryBuilder.push, if_pos hexceeded]
    refine ⟨iff_of_true hexceeded fun hfits ↦ hover hfits.of_concat, fun hrunning ↦ ?_,
      fun hrunning ↦ ?_⟩
    · rw [hexceeded] at hrunning
      cases hrunning
    · rw [hexceeded] at hrunning
      cases hrunning
  have hrunning : ¬builder.exceeded = true := by
    rw [hexceeded]
    exact Bool.false_ne_true
  have hfits : FitsDictionary keys := not_not.mp fun hover ↦ hrunning (h.exceeded.mpr hover)
  have hvalues := h.values hexceeded
  have hbytes := h.copiedBytes hexceeded
  rw [DictionaryBuilder.push, if_neg hrunning]
  rcases hfound : builder.values.idxOf? key with - | index
  case some =>
    have hmem : key ∈ keys := by
      obtain ⟨hlt, hkey, -⟩ := List.idxOf?_eq_some_iff.mp hfound
      rw [← List.mem_eraseDups, ← hvalues, ← hkey]
      exact List.getElem_mem hlt
    have hsame := eraseDups_concat_of_mem hmem
    refine ⟨iff_of_false hrunning ?_, fun _ ↦ hvalues.trans hsame.symm, fun _ ↦ ?_⟩
    · rw [not_not, fitsDictionary_iff, hsame]
      exact (fitsDictionary_iff keys).mp hfits
    · rw [hsame]
      exact hbytes
  case none =>
    have hmem : key ∉ keys := by
      rw [← List.mem_eraseDups, ← hvalues]
      exact List.idxOf?_eq_none_iff.mp hfound
    have hlonger := eraseDups_concat_of_notMem hmem
    have hsum : ((keys ++ [key]).eraseDups.map List.length).sum =
        builder.copiedBytes + key.length := by
      rw [hlonger, List.map_append, List.sum_append, hbytes]
      rfl
    have hlength : (keys ++ [key]).eraseDups.length = builder.values.length + 1 := by
      rw [hlonger, List.length_append, hvalues]
      rfl
    obtain ⟨hcount, -⟩ := (fitsDictionary_iff keys).mp hfits
    rw [← hvalues] at hcount
    -- The caps are tested on the keys as they would be with this one.
    have hfull : (builder.values.length = distinctValueLimit ∨
        distinctByteLimit < saturatingAdd builder.copiedBytes key.length) ↔
          ¬FitsDictionary (keys ++ [key]) := by
      rw [fitsDictionary_iff, hlength, hsum, saturatingAdd, distinctByteLimit,
        show u64Max = 2 ^ 64 - 1 from rfl]
      omega
    by_cases hover : builder.values.length = distinctValueLimit ∨
        distinctByteLimit < saturatingAdd builder.copiedBytes key.length
    · simp only [if_pos hover]
      refine ⟨iff_of_true rfl (hfull.mp hover), fun h ↦ ?_, fun h ↦ ?_⟩
      · cases h
      · cases h
    · simp only [if_neg hover]
      have hnext := not_not.mp fun h ↦ hover (hfull.mpr h)
      obtain ⟨-, hroom⟩ := (fitsDictionary_iff _).mp hnext
      refine ⟨iff_of_false hrunning (not_not.mpr hnext), fun _ ↦ ?_, fun _ ↦ ?_⟩
      · rw [hlonger, ← hvalues]
      · show min (builder.copiedBytes + key.length) u64Max = _
        rw [hsum] at hroom ⊢
        exact Nat.min_eq_left (hroom.trans (by decide))

/-- **A builder counts what it is given** throughout a run. -/
theorem counted_foldl (keys : List Bytes) :
    Counted keys (keys.foldl DictionaryBuilder.push {}) := by
  induction keys using List.reverseRecOn with
  | nil =>
    refine ⟨iff_of_false Bool.false_ne_true ?_, fun _ ↦ rfl, fun _ ↦ rfl⟩
    rw [not_not, fitsDictionary_iff]
    exact ⟨Nat.zero_le _, Nat.zero_le _⟩
  | append_singleton keys key ih =>
    rw [List.foldl_append]
    exact ih.push key

/-- The dictionary of a column's profile is what the table finishes with. -/
theorem profile_dictionary (values : PreparedValues) :
    ∃ table, values.keys.foldlM DictionaryTable.push {} = .ok table ∧
      (profile values).dictionary = table.finish := by
  obtain ⟨table, htable, hrefines⟩ := DictionaryTable.refines_start.foldlM_push values.keys
  exact ⟨table, htable, hrefines.finish.symm⟩

/-- **The bounded dictionary is exact or absent**: it is there just where the distinct keys, in
whatever order they come, are within both caps, and then it lists each of them once, in the order of
their first occurrences, with a position for every key that was pushed. -/
theorem boundedDictionary_exact (keys : List Bytes) :
    ∃ table, keys.foldlM DictionaryTable.push {} = .ok table ∧
      (table.finish.isSome = true ↔ keys.toFinset.card ≤ distinctValueLimit ∧
        ∑ key ∈ keys.toFinset, key.length ≤ distinctByteLimit) ∧
      ∀ dictionary, table.finish = some dictionary →
        dictionary.values = keys.eraseDups ∧ dictionary.values.Nodup ∧
          dictionary.indices.length = keys.length ∧
            ∀ (i : ℕ) key, keys[i]? = some key →
              ∃ index : ℕ, dictionary.indices[i]? = some index ∧
                index < dictionary.values.length ∧ dictionary.values[index]? = some key := by
  obtain ⟨table, htable, hrefines⟩ := DictionaryTable.refines_start.foldlM_push keys
  have hcounted := counted_foldl keys
  refine ⟨table, htable, ?_, fun dictionary hdictionary ↦ ?_⟩
  · rw [hrefines.finish, DictionaryBuilder.finish]
    by_cases hexceeded : (keys.foldl DictionaryBuilder.push {}).exceeded = true
    · rw [if_pos hexceeded]
      exact iff_of_false Bool.false_ne_true (hcounted.exceeded.mp hexceeded)
    · rw [if_neg hexceeded]
      exact iff_of_true rfl (not_not.mp fun hover ↦ hexceeded (hcounted.exceeded.mpr hover))
  · rw [hrefines.finish] at hdictionary
    have hexact := dictionary_of_finish hdictionary
    have hvalues : dictionary.values = keys.eraseDups := by
      rw [DictionaryBuilder.finish] at hdictionary
      split at hdictionary
      · cases hdictionary
      · rename_i hrunning
        cases hdictionary
        exact hcounted.values (Bool.eq_false_of_not_eq_true hrunning)
    refine ⟨hvalues, hvalues ▸ nodup_eraseDups keys, hexact.length_indices, fun i key hkey ↦ ?_⟩
    -- The key that is looked up at the stored position is the one that was pushed there.
    have hlookup : (dictionary.indices.map (dictionary.values[·]?))[i]? = some (some key) := by
      rw [hexact.lookups, List.getElem?_map, hkey, Option.map_some]
    rw [List.getElem?_map, Option.map_eq_some_iff] at hlookup
    obtain ⟨index, hindex, hvalue⟩ := hlookup
    exact ⟨index, hindex, (List.getElem?_eq_some_iff.mp hvalue).1, hvalue⟩

end Candidates

end Acta
