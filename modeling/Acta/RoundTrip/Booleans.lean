import Acta.RoundTrip.BitPacking

/-!
# Boolean streams

The writer stores flags as single bits, as packed numbers of at most one bit, or as runs.  Its loops
set the bits of a buffer that is measured first (`packBooleansLoop`) and gather the runs from the
left (`RunLists.push`); here they are shown to write what `packBits` and `Candidates.booleanRle`
say.

A payload of runs is read where it follows a grammar of three regions (`BooleanRuns`), whose bounds
all come from the count of runs that it begins with.  The grammar leaves the reader nothing else to
accept, and it says what is read.
-/

namespace Acta

open Machine Wire Candidates Transform

/-! ### The writer's loops -/

namespace Candidates

/-- Set the bit of a flag that holds. -/
def placeBoolean (index : ℕ) (output : Bytes) (value : Bool) : Option Bytes :=
  if value then setBit output (index / 8) (index % 8) else some output

/-- Place one flag after another, from an index on. -/
def placeBooleans : ℕ → Bytes → List Bool → Option Bytes
  | _, output, [] => some output
  | index, output, value :: rest => do
    let output ← placeBoolean index output value
    placeBooleans (index + 1) output rest

/-- Flags as single bits, set in a buffer of zeros.  There is no result where the loop would write
outside the buffer. -/
def packBooleansLoop (values : List Bool) : Option Bytes :=
  placeBooleans 0 (List.replicate (bitmapBytes values.length) 0) values

/-- The runs that were gathered, in the two lists the writer keeps. -/
structure RunLists where
  values : List Bool
  lengths : List ℕ

/-- Count one more flag.  There is no result where a run value has no length. -/
def RunLists.push (runs : RunLists) (value : Bool) : Option RunLists :=
  if runs.values.getLast? = some value then do
    let length ← runs.lengths.getLast?
    return { runs with lengths := runs.lengths.dropLast ++ [length + 1] }
  else
    some { values := runs.values ++ [value], lengths := runs.lengths ++ [1] }

/-- Gather the runs of the flags, then lay out their count, their values and their lengths. -/
def booleanRleLoop (values : List Bool) : Option (Result Bytes) := do
  let runs ← values.foldlM RunLists.push { values := [], lengths := [] }
  let count := leBytes 4 runs.values.length
  if u32Max < runs.values.length then
    some (.error (resource "a boolean run count"))
  else if runs.values = [] then
    some (.ok count)
  else do
    let bits ← packBooleansLoop runs.values
    let packed ← packFromLoop (bitWidth (runs.lengths.foldl max 0)) runs.lengths.length runs.lengths
    return packed.map (count ++ bits ++ ·)

/-- A flag replaces a zero. -/
theorem placeBoolean_packBits (done rest : List Bool) (value : Bool) :
    placeBoolean done.length (packBits (done ++ false :: rest)) value =
      some (packBits (done ++ value :: rest)) := by
  rw [placeBoolean]
  cases value with
  | false => rfl
  | true =>
    have hinside : done.length < (done ++ false :: rest).length := by
      rw [List.length_append, List.length_cons]
      omega
    rw [if_pos rfl, setBit_packBits hinside, List.set_append_right _ _ le_rfl, Nat.sub_self,
      List.set_cons_zero]

theorem placeBooleans_packBits (done values : List Bool) :
    placeBooleans done.length (packBits (done ++ List.replicate values.length false)) values =
      some (packBits (done ++ values)) := by
  induction values generalizing done with
  | nil => rfl
  | cons value rest ih =>
    have hrest := ih (done ++ [value])
    rw [List.length_append, List.append_assoc, List.append_assoc] at hrest
    rw [placeBooleans, List.length_cons, List.replicate_succ, placeBoolean_packBits]
    exact hrest

/-- **The loop packs the flags**, in a buffer it does not leave. -/
theorem packBooleansLoop_eq (values : List Bool) :
    packBooleansLoop values = some (packBits values) := by
  have hplaced := placeBooleans_packBits [] values
  rw [List.nil_append, packBits_replicate_false, List.nil_append] at hplaced
  exact hplaced

/-- The lists the writer keeps of its runs. -/
def RunLists.of (runs : List (Bool × ℕ)) : RunLists where
  values := runs.map Prod.fst
  lengths := runs.map Prod.snd

theorem RunLists.push_of (runs : List (Bool × ℕ)) (value : Bool) :
    (of runs).push value = some (of (Runs.push runs value)) := by
  rcases List.eq_nil_or_concat runs with rfl | ⟨front, ⟨last, length⟩, rfl⟩
  · rfl
  rw [List.concat_eq_append, Runs.push_concat, push, of]
  simp only [List.map_append, List.map_cons, List.map_nil, List.getLast?_concat, Option.some.injEq]
  by_cases hlast : last = value
  · rw [if_pos hlast, if_pos hlast, List.dropLast_concat, of, List.map_append, List.map_append]
    rfl
  · rw [if_neg hlast, if_neg hlast, of, List.map_append, List.map_append, List.append_assoc,
      List.append_assoc]
    rfl

theorem RunLists.foldlM_push (done values : List Bool) :
    values.foldlM push (of (Runs.runs done)) = some (of (Runs.runs (done ++ values))) := by
  induction values generalizing done with
  | nil => rw [List.append_nil]; rfl
  | cons value rest ih =>
    have hrest := ih (done ++ [value])
    rw [Runs.runs_concat, List.append_assoc] at hrest
    rw [List.foldlM_cons, push_of]
    exact hrest

/-- **The loop lays out the runs of the flags.** -/
theorem booleanRleLoop_eq {values : List Bool} (h : values.length ≤ u64Max) :
    booleanRleLoop values = some (booleanRle values) := by
  have hgathered : values.foldlM RunLists.push { values := [], lengths := [] } =
      some (RunLists.of (Runs.runs values)) := RunLists.foldlM_push [] values
  have hlengths := (Runs.runs_bounds values).2
  rw [booleanRleLoop, hgathered, booleanRle]
  generalize Runs.runs values = runs at *
  show (if u32Max < (runs.map Prod.fst).length then _
    else if runs.map Prod.fst = [] then _ else _) = _
  rw [List.length_map]
  by_cases hmany : u32Max < runs.length
  · rw [if_pos hmany, failIf_pos hmany]
    rfl
  rw [if_neg hmany, failIf_neg hmany, ok_bind]
  by_cases hnil : runs = []
  · subst hnil
    rfl
  · obtain ⟨hwidth, -⟩ := fits_bitWidth_foldl_max (runs.map Prod.snd)
      fun length hlength ↦ (hlengths length hlength).2.trans h
    have hroom := countable_of_le (Nat.not_lt.mp hmany) hwidth
    have hpacked := @packFromLoop_eq (bitWidth ((runs.map Prod.snd).foldl max 0)) runs.length
      (by omega) (runs.map Prod.snd)
    rw [if_neg hnil, if_neg fun hmap ↦ hnil (List.map_eq_nil_iff.mp hmap), packBooleansLoop_eq]
    simp only [RunLists.of, List.length_map, hpacked]
    rfl

end Candidates

/-! ### What the reader accepts -/

/-- **Runs are expanded** where none is empty and their lengths do not exceed the count. -/
theorem expandRuns_eq_ok {count total final : ℕ} {runs : List (Bool × ℕ)} {values : List Bool}
    {what : String} (htotal : total ≤ count) (hcount : count ≤ u64Max) :
    expandRuns count what total runs = .ok (final, values) ↔
      (∀ run ∈ runs, 0 < run.2) ∧ total + (runs.map Prod.snd).sum ≤ count ∧
        final = total + (runs.map Prod.snd).sum ∧ values = Runs.expand runs := by
  induction runs generalizing total values with
  | nil =>
    constructor
    · intro h
      cases h
      exact ⟨fun run hrun ↦ absurd hrun List.not_mem_nil, htotal, rfl, rfl⟩
    · rintro ⟨-, -, rfl, rfl⟩
      rfl
  | cons run runs ih =>
    obtain ⟨value, length⟩ := run
    simp only [expandRuns, bind_eq_ok, failIf_eq_ok, okOr_eq_ok, Option.filter_eq_some_iff,
      checkedAdd_eq_some, decide_eq_true_eq, List.forall_mem_cons, List.map_cons, List.sum_cons,
      ← Nat.add_assoc]
    constructor
    · rintro ⟨-, hpos, next, ⟨⟨-, rfl⟩, hle⟩, ⟨final', rest⟩, hrest, h⟩
      cases h
      obtain ⟨hlater, hsum, rfl, rfl⟩ := (ih hle).mp hrest
      exact ⟨⟨Nat.pos_of_ne_zero hpos, hlater⟩, hsum, rfl, rfl⟩
    · rintro ⟨⟨hpos, hlater⟩, hsum, rfl, rfl⟩
      have hle : total + length ≤ count := by omega
      exact ⟨(), Nat.ne_of_gt hpos, total + length, ⟨⟨hle.trans hcount, rfl⟩, hle⟩, _,
        (ih hle).mpr ⟨hlater, hsum, rfl, rfl⟩, rfl⟩

/-- The regions of a payload of boolean runs: a count of runs, the bit of each run and the length of
each run.  Nothing follows a count of zero. -/
structure BooleanRuns (payload : Bytes) (count : ℕ) (bits packed : Bytes) (lengths : List ℕ) :
    Prop where
  layout : payload = leBytes 4 lengths.length ++ bits ++ packed
  stored : lengths.length ≤ u32Max
  runs_le : lengths.length ≤ count
  length_bits : bits.length = bitmapBytes lengths.length
  packing : if lengths = [] then packed = [] else
    ∃ width ≤ 64, (∀ length ∈ lengths, length < 2 ^ width) ∧
      packFromLoop width lengths.length lengths = some (.ok packed)
  positive : ∀ length ∈ lengths, 0 < length
  sum_eq : lengths.sum = count

/-- The runs whose bits and lengths are stored. -/
def storedRuns (bits : Bytes) (lengths : List ℕ) : List (Bool × ℕ) :=
  ((List.range lengths.length).map (bitAt bits)).zip lengths

theorem lengths_storedRuns (bits : Bytes) (lengths : List ℕ) :
    (storedRuns bits lengths).map Prod.snd = lengths := by
  rw [storedRuns, List.map_snd_zip]
  rw [List.length_map, List.length_range]

theorem forall_storedRuns {bits : Bytes} {lengths : List ℕ} :
    (∀ run ∈ storedRuns bits lengths, 0 < run.2) ↔ ∀ length ∈ lengths, 0 < length := by
  conv_rhs => rw [← lengths_storedRuns bits lengths]
  exact List.forall_mem_map.symm

/-- The reader finds the regions of a payload by its count of runs. -/
theorem booleanRle_regions {runCount : ℕ} (hstored : runCount ≤ u32Max) (hne : runCount ≠ 0)
    {bits : Bytes} (hbits : bits.length = bitmapBytes runCount) (packed : Bytes) (count : ℕ)
    (what : String) :
    Transform.booleanRle (leBytes 4 runCount ++ bits ++ packed) count what = do
      failIf (count < runCount) (Transform.invalid what "boolean RLE has more runs than elements")
      let runLengths ← BitUnpacker.new packed runCount what
      let (total, values) ← expandRuns count what 0
        (((List.range runCount).map (bitAt bits)).zip runLengths.values)
      failIf (total ≠ count)
        (Transform.invalid what "boolean RLE lengths do not sum to the element count")
      return values := by
  have hcount : leNat (leBytes 4 runCount) = runCount := by
    rw [show u32Max = 2 ^ 32 - 1 from rfl] at hstored
    exact leNat_leBytes_of_lt (by omega)
  have hlength : (leBytes 4 runCount ++ bits ++ packed).length =
      4 + bitmapBytes runCount + packed.length := by
    rw [List.length_append, List.length_append, length_leBytes, hbits]
  have hroom : ¬(leBytes 4 runCount ++ bits ++ packed).length < 4 + bitmapBytes runCount := by omega
  have hleading (error : Error) : leading (leBytes 4 runCount ++ bits ++ packed) 4 error =
      .ok (leBytes 4 runCount) := by
    rw [leading, failIf_neg (by omega), ok_bind, pure_eq_ok, List.append_assoc,
      List.take_left' (length_leBytes 4 runCount)]
  have hmiddle := slice_append_middle (leBytes 4 runCount) bits packed
  rw [length_leBytes, hbits] at hmiddle
  have hdrop : (leBytes 4 runCount ++ bits ++ packed).drop (4 + bitmapBytes runCount) = packed :=
    List.drop_left' (by rw [List.length_append, length_leBytes, hbits])
  have hbytes : (runCount + 7) / 8 = bitmapBytes runCount := rfl
  rw [Transform.booleanRle, hleading, ok_bind]
  simp only [hcount, hbytes, hmiddle, hdrop]
  rw [if_neg hne, failIf_neg hroom, ok_bind]

/-- A payload that is long enough for its regions is cut into them. -/
theorem exists_regions {payload : Bytes} {runCount : ℕ} (hcount : leNat (payload.take 4) = runCount)
    (hlength : 4 + bitmapBytes runCount ≤ payload.length) :
    runCount ≤ u32Max ∧ ∃ bits packed, bits.length = bitmapBytes runCount ∧
      payload = leBytes 4 runCount ++ bits ++ packed := by
  have hfour : (payload.take 4).length = 4 := List.length_take_of_le (by omega)
  have hbound := leNat_lt (payload.take 4)
  have hbytes := leBytes_leNat (payload.take 4)
  rw [hfour, hcount] at hbytes hbound
  refine ⟨?_, slice payload 4 (bitmapBytes runCount), payload.drop (4 + bitmapBytes runCount),
    length_slice_of_le hlength, ?_⟩
  · rw [show u32Max = 2 ^ 32 - 1 from rfl]
    omega
  · rw [hbytes, slice, List.append_assoc, ← List.drop_drop, List.take_append_drop,
      List.take_append_drop]

/-- What is accepted as boolean runs is cut into their regions. -/
theorem booleanRuns_of_booleanRle {payload : Bytes} {count : ℕ} {values : List Bool} {what : String}
    (hcount : count ≤ u64Max) (h : Transform.booleanRle payload count what = .ok values) :
    ∃ bits packed lengths, BooleanRuns payload count bits packed lengths ∧
      values = Runs.expand (storedRuns bits lengths) := by
  obtain ⟨stored, hstored, hrest⟩ := bind_eq_ok.mp h
  obtain ⟨_, hfour, hsame⟩ := bind_eq_ok.mp hstored
  cases hsame
  obtain ⟨_, hle, hrest⟩ := bind_eq_ok.mp hrest
  rw [failIf_eq_ok, not_lt] at hfour hle
  generalize hrunCount : leNat (payload.take 4) = runCount at *
  by_cases hzero : runCount = 0
  · -- No runs: the count of runs is the whole payload.
    rw [if_pos hzero] at hrest
    obtain ⟨_, hempty, hvalues⟩ := bind_eq_ok.mp hrest
    cases hvalues
    rw [failIf_eq_ok, not_or, not_not, not_not] at hempty
    obtain ⟨rfl, hlength⟩ := hempty
    have hbytes := leBytes_leNat payload
    rw [List.take_of_length_le (Nat.le_of_eq hlength), hzero] at hrunCount
    rw [hlength, hrunCount] at hbytes
    exact ⟨[], [], [], ⟨hbytes.symm, Nat.zero_le _, Nat.zero_le _, rfl, by rw [if_pos rfl],
      fun length hmem ↦ absurd hmem List.not_mem_nil, rfl⟩, rfl⟩
  · rw [if_neg hzero] at hrest
    obtain ⟨_, hroom, -⟩ := bind_eq_ok.mp hrest
    rw [failIf_eq_ok, not_lt] at hroom
    obtain ⟨hbound, bits, packed, hbits, rfl⟩ := exists_regions hrunCount hroom
    rw [booleanRle_regions hbound hzero hbits] at h
    obtain ⟨_, -, h⟩ := bind_eq_ok.mp h
    obtain ⟨unpacker, hnew, h⟩ := bind_eq_ok.mp h
    obtain ⟨⟨total, expanded⟩, hexpand, h⟩ := bind_eq_ok.mp h
    obtain ⟨_, htotal, hvalues⟩ := bind_eq_ok.mp h
    cases hvalues
    rw [failIf_eq_ok, not_not] at htotal
    obtain ⟨first, data, rfl, hmeasured, rfl⟩ := BitUnpacker.new_eq_ok.mp hnew
    have hwords : (Measured.words first.toNat runCount data).length = runCount := by
      rw [Measured.words, List.length_map, List.length_range]
    have hpacked := hmeasured.packFromLoop_words
    have hfit : ∀ length ∈ Measured.words first.toNat runCount data, length < 2 ^ first.toNat := by
      intro length hlength
      obtain ⟨index, -, rfl⟩ := List.mem_map.mp hlength
      exact wordAt_lt _ _ _
    have hruns : expandRuns count what 0
        (storedRuns bits (Measured.words first.toNat runCount data)) = .ok (total, values) := by
      rw [storedRuns, hwords]
      exact hexpand
    generalize Measured.words first.toNat runCount data = lengths at *
    subst hwords
    obtain ⟨hpos, -, hsum, rfl⟩ := (expandRuns_eq_ok (Nat.zero_le count) hcount).mp hruns
    rw [lengths_storedRuns, Nat.zero_add] at hsum
    refine ⟨bits, first :: data, lengths, ⟨rfl, hbound, hle, hbits, ?_, forall_storedRuns.mp hpos,
      hsum.symm.trans htotal⟩, rfl⟩
    rw [if_neg fun hnil ↦ hzero (by rw [hnil]; rfl)]
    exact ⟨first.toNat, hmeasured.width_le, hfit, hpacked⟩

/-- **The reader accepts the grammar of boolean runs** and nothing else, and repeats the bit of each
run for its length. -/
theorem booleanRle_eq_ok {payload : Bytes} {count : ℕ} {values : List Bool} {what : String}
    (hcount : count ≤ u64Max) :
    Transform.booleanRle payload count what = .ok values ↔
      ∃ bits packed lengths, BooleanRuns payload count bits packed lengths ∧
        values = Runs.expand (storedRuns bits lengths) := by
  constructor
  · exact booleanRuns_of_booleanRle hcount
  rintro ⟨bits, packed, lengths, ⟨rfl, hstored, hle, hbits, hpacking, hpos, hsum⟩, rfl⟩
  by_cases hnil : lengths = []
  · rw [if_pos hnil] at hpacking
    subst hnil hpacking hsum
    obtain rfl := List.eq_nil_of_length_eq_zero hbits
    rfl
  · rw [if_neg hnil] at hpacking
    obtain ⟨width, hwidth, hfit, hpacked⟩ := hpacking
    have hroom := countable_of_le hstored hwidth
    rw [packFromLoop_eq (by omega), packFrom_of_length rfl] at hpacked
    cases hpacked
    obtain ⟨unpacker, hnew, hvalues⟩ := unpacker_of_packBits lengths hwidth hroom hfit what
    have hruns : expandRuns count what 0 (storedRuns bits lengths) =
        .ok (count, Runs.expand (storedRuns bits lengths)) := by
      refine (expandRuns_eq_ok (Nat.zero_le count) hcount).mpr
        ⟨forall_storedRuns.mpr hpos, ?_, ?_, rfl⟩
      · rw [lengths_storedRuns, hsum, Nat.zero_add]
      · rw [lengths_storedRuns, hsum, Nat.zero_add]
    rw [booleanRle_regions hstored (fun hzero ↦ hnil (List.eq_nil_of_length_eq_zero hzero)) hbits,
      failIf_neg (Nat.not_lt.mpr hle), ok_bind, hnew, ok_bind, hvalues]
    show (do
      let (total, values) ← expandRuns count what 0 (storedRuns bits lengths)
      failIf (total ≠ count) _
      return values) = _
    rw [hruns, ok_bind]
    show (do
      failIf (count ≠ count) _
      return _) = _
    rw [failIf_neg (not_not.mpr rfl), ok_bind]
    rfl

/-! ### What the writer lays out -/

/-- The runs of the flags are what their bits and lengths are read as. -/
theorem storedRuns_packBits (runs : List (Bool × ℕ)) :
    storedRuns (packBits (runs.map Prod.fst)) (runs.map Prod.snd) = runs := by
  have hbits := range_map_bitAt (runs.map Prod.fst)
  rw [List.length_map] at hbits
  rw [storedRuns, List.length_map, hbits, List.zip_map', List.map_id'']
  intro run
  rfl

/-- **The writer lays out boolean runs** whenever a count of 32 bits can be given. -/
theorem booleanRuns_runs {values : List Bool} (hcount : values.length ≤ u64Max)
    (hruns : (Runs.runs values).length ≤ u32Max) :
    ∃ bytes packed, Candidates.booleanRle values = .ok bytes ∧
      BooleanRuns bytes values.length (packBits ((Runs.runs values).map Prod.fst)) packed
        ((Runs.runs values).map Prod.snd) := by
  obtain ⟨hle, hlengths⟩ := Runs.runs_bounds values
  have hsum := Runs.sum_lengths_runs values
  rw [Candidates.booleanRle, failIf_neg (Nat.not_lt.mpr hruns), ok_bind]
  generalize Runs.runs values = runs at *
  have hbits : (packBits (runs.map Prod.fst)).length = bitmapBytes (runs.map Prod.snd).length := by
    rw [length_packBits, List.length_map, List.length_map]
  have hpositive : ∀ length ∈ runs.map Prod.snd, 0 < length := fun length hlength ↦
    (hlengths length hlength).1
  by_cases hnil : runs = []
  · subst hnil
    exact ⟨_, [], rfl, rfl, hruns, hle, hbits, by rw [List.map_nil, if_pos rfl], hpositive, hsum⟩
  · obtain ⟨hwidth, hfit⟩ := fits_bitWidth_foldl_max (runs.map Prod.snd)
      fun length hlength ↦ (hlengths length hlength).2.trans hcount
    have hmany : (runs.map Prod.snd).length ≤ u32Max := by rwa [List.length_map]
    have hroom := countable_of_le hmany hwidth
    simp only [if_neg hnil, packFrom_of_length rfl, ok_bind, pure_eq_ok]
    refine ⟨_, _, rfl, by rw [List.length_map], hmany, by rwa [List.length_map], hbits, ?_,
      hpositive,
      hsum⟩
    rw [if_neg fun hmap ↦ hnil (List.map_eq_nil_iff.mp hmap)]
    exact ⟨_, hwidth, hfit, (packFromLoop_eq (by omega) _).trans
      (congrArg some (packFrom_of_length rfl))⟩

/-- **Boolean streams decode to what was encoded**, as single bits, as packed numbers and as runs,
and a payload of runs is accepted exactly where it follows their grammar.  It then stands for the
concatenation of its runs, which has the declared length. -/
theorem booleanStreams (what : String) :
    (∀ values : List Bool, values.length ≤ isizeMax →
        (∃ bytes, packBooleansLoop values = some bytes ∧
          booleans bytes values.length 0 what = .ok values) ∧
        (∃ bytes, packFromLoop (values.any id).toNat values.length (values.map Bool.toNat) =
            some (.ok bytes) ∧ booleans bytes values.length 1 what = .ok values) ∧
        (u32Max < (Runs.runs values).length ∧
            booleanRleLoop values = some (.error (resource "a boolean run count")) ∨
          ∃ bytes, booleanRleLoop values = some (.ok bytes) ∧
            booleans bytes values.length 6 what = .ok values)) ∧
      ∀ (payload : Bytes) (count : ℕ), count ≤ u64Max →
        ((∃ values, booleans payload count 6 what = .ok values) ↔
            ∃ bits packed lengths, BooleanRuns payload count bits packed lengths) ∧
          ∀ bits packed lengths, BooleanRuns payload count bits packed lengths →
            booleans payload count 6 what = .ok (Runs.expand (storedRuns bits lengths)) ∧
              (Runs.expand (storedRuns bits lengths)).length = count := by
  constructor
  · intro values hlength
    have hcount : values.length + 7 ≤ u64Max := by
      rw [show isizeMax = 2 ^ 63 - 1 from rfl] at hlength
      have hbound : u64Max = 2 ^ 64 - 1 := rfl
      omega
    refine ⟨⟨_, packBooleansLoop_eq values, rawBooleans_packBits hcount what⟩, ?_, ?_⟩
    · have hone : (values.any id).toNat ≤ 1 := Bool.toNat_le _
      have hbits : values.length * (values.any id).toNat ≤ values.length :=
        (Nat.mul_le_mul_left _ hone).trans_eq (Nat.mul_one _)
      have hfit : ∀ value ∈ values, value.toNat < 2 ^ (values.any id).toNat := by
        intro value hvalue
        cases value with
        | false => exact Nat.two_pow_pos _
        | true =>
          rw [List.any_eq_true.mpr ⟨true, hvalue, rfl⟩]
          decide
      exact ⟨_, (packFromLoop_eq (by omega) _).trans
        (congrArg some (packFrom_of_length (List.length_map _))),
        packedBooleans_packFrom (by omega) (by omega) hfit what⟩
    · rw [booleanRleLoop_eq (by omega)]
      rcases Nat.lt_or_ge u32Max (Runs.runs values).length with hmany | hruns
      · refine .inl ⟨hmany, ?_⟩
        rw [Candidates.booleanRle, failIf_pos hmany]
        rfl
      · obtain ⟨bytes, packed, hbytes, hregions⟩ := booleanRuns_runs (by omega) hruns
        refine .inr ⟨bytes, congrArg some hbytes,
          (booleanRle_eq_ok (by omega)).mpr ⟨_, _, _, hregions, ?_⟩⟩
        rw [storedRuns_packBits, Runs.expand_runs]
  · intro payload count hcount
    have haccepted : ∀ bits packed lengths, BooleanRuns payload count bits packed lengths →
        booleans payload count 6 what = .ok (Runs.expand (storedRuns bits lengths)) :=
      fun bits packed lengths h ↦ (booleanRle_eq_ok hcount).mpr ⟨bits, packed, lengths, h, rfl⟩
    refine ⟨⟨?_, ?_⟩, fun bits packed lengths h ↦ ⟨haccepted bits packed lengths h,
      length_booleans (haccepted bits packed lengths h)⟩⟩
    · rintro ⟨values, hvalues⟩
      obtain ⟨bits, packed, lengths, hregions, -⟩ := (booleanRle_eq_ok hcount).mp hvalues
      exact ⟨bits, packed, lengths, hregions⟩
    · rintro ⟨bits, packed, lengths, hregions⟩
      exact ⟨_, haccepted bits packed lengths hregions⟩

theorem booleanStreams_threeFlags :
    ((∃ bytes, packBooleansLoop [true, true, false] = some bytes ∧
          booleans bytes 3 0 "x" = .ok [true, true, false]) ∧
        (∃ bytes, packFromLoop 1 3 [1, 1, 0] = some (.ok bytes) ∧
          booleans bytes 3 1 "x" = .ok [true, true, false]) ∧
        (u32Max < 2 ∧ booleanRleLoop [true, true, false] =
            some (.error (resource "a boolean run count")) ∨
          ∃ bytes, booleanRleLoop [true, true, false] = some (.ok bytes) ∧
            booleans bytes 3 6 "x" = .ok [true, true, false])) ∧
      ((∃ values, booleans [2, 0, 0, 0, 1, 2, 6] 3 6 "x" = .ok values) ↔
        ∃ bits packed lengths, BooleanRuns [2, 0, 0, 0, 1, 2, 6] 3 bits packed lengths) :=
  ⟨(booleanStreams "x").1 [true, true, false] (by decide),
    ((booleanStreams "x").2 [2, 0, 0, 0, 1, 2, 6] 3 (by decide)).1⟩

end Acta
