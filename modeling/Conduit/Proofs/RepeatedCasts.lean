import Conduit.Proofs.Casts
import Mathlib.Tactic.IntervalCases

/-!
# Casting what was cast

A literal that was cast is left as it is when it is cast again (`cast_again`).  For dates this means
that the text of an instant is read as the instant: the calendar gives the days back
(`daysFromDate_dateFromDays`), and a time stamp is read digit by digit (`readStamp?_stamp`).  It holds
for the years that are written with four digits; other years have a sign, which is not read.
-/

namespace Conduit

open List

namespace Instant

/-! ## The calendar -/

/-- The year of an era in which a day lies, and the day of that year.  Only leap years have a day
365. -/
lemma yearOfEra_spec {n y : Int} (h0 : 0 ≤ n) (h1 : n < 146097)
    (hy : y = (n - n / 1460 + n / 36524 - n / 146096) / 365) :
    0 ≤ y ∧ y < 400 ∧ 365 * y + y / 4 - y / 100 ≤ n ∧ n ≤ 365 * y + y / 4 - y / 100 + 365 ∧
      (n = 365 * y + y / 4 - y / 100 + 365 → y % 4 = 3 ∧ (y % 100 ≠ 99 ∨ y = 399)) := by
  by_cases hlast : n = 146096
  · subst hlast
    norm_num at hy
    subst hy
    decide
  · have hera : n / 146096 = 0 := by omega
    rw [hera] at hy
    generalize hd : n / 36524 = d at hy
    have hd0 : 0 ≤ d := by omega
    have hd3 : d ≤ 3 := by omega
    have hcentury : y / 100 = d := by
      interval_cases d <;> omega
    have hcycle : n / 1461 - 1 ≤ y / 4 ∧ y / 4 ≤ n / 1461 + 1 := by
      interval_cases d <;> omega
    rw [hcentury]
    refine ⟨by omega, by omega, ?_, ?_, fun h => ⟨?_, ?_⟩⟩
    · interval_cases d <;> omega
    · interval_cases d <;> omega
    · have hmod : y % 4 = 0 ∨ y % 4 = 1 ∨ y % 4 = 2 ∨ y % 4 = 3 := by omega
      rcases hmod with hmod | hmod | hmod | hmod <;> omega
    · interval_cases d <;> omega

variable {month day : Nat} {α : Type} {days : Int} {cs : List Char} {t : Instant}

lemma daysFromDate_dateFromDays (days : Int) {year : Int}
    (h : dateFromDays days = (year, month, day)) :
    daysFromDate year month day = days ∧ 1 ≤ month ∧ month ≤ 12 ∧ 1 ≤ day ∧
      day ≤ daysInMonth year month := by
  simp only [dateFromDays, Prod.mk.injEq] at h
  obtain ⟨hyear, hmonth, hday⟩ := h
  generalize hera : (days + 719468) / 146097 = era at *
  generalize hn : (days + 719468) % 146097 = n at *
  generalize hy : (n - n / 1460 + n / 36524 - n / 146096) / 365 = y at *
  obtain ⟨hy0, hy1, hlow, hhigh, hleap⟩ := yearOfEra_spec (by omega) (by omega) hy.symm
  generalize hdoy : n - (365 * y + y / 4 - y / 100) = doy at *
  generalize hmp : (5 * doy + 2) / 153 = mp at *
  have hmp0 : 0 ≤ mp := by omega
  have hmp1 : mp ≤ 11 := by omega
  have hdays : days = era * 146097 + n - 719468 := by omega
  have hmarch : (month : Int) = if mp < 10 then mp + 3 else mp - 9 := by
    rw [← hmonth]
    split <;> omega
  refine ⟨?_, ?_, ?_, ?_, ?_⟩
  · have hback : (if month ≤ 2 then year - 1 else year) = y + era * 400 := by
      split at hmarch <;> split <;> split at hyear <;> omega
    have hmonths : (if month ≤ 2 then (month : Int) + 9 else (month : Int) - 3) = mp := by
      split at hmarch <;> split <;> omega
    have hquotient : (y + era * 400) / 400 = era := by omega
    have hremainder : (y + era * 400) % 400 = y := by omega
    simp only [daysFromDate, hback, hmonths, hquotient, hremainder]
    omega
  · split at hmarch <;> omega
  · split at hmarch <;> omega
  · omega
  · -- only February depends on the year: its day 29 is the last of a year that starts in March
    by_cases hfebruary : mp = 11
    · have hmonth : month = 2 := by
        rw [hfebruary] at hmarch
        norm_num at hmarch
        omega
      subst hmonth
      simp only [daysInMonth]
      split
      · omega
      · next hcommon =>
        have hyear : year = y + era * 400 + 1 := by
          split at hyear <;> omega
        simp only [isLeap, Bool.and_eq_true, Bool.or_eq_true, beq_iff_eq, bne_iff_ne] at hcommon
        omega
    · have hmonths : month ∈ [1, 3, 4, 5, 6, 7, 8, 9, 10, 11, 12] := by
        simp only [mem_cons, not_mem_nil, or_false]
        split at hmarch <;> omega
      have hlength : daysInMonth year month = if month ∈ [4, 6, 9, 11] then 30 else 31 := by
        simp only [mem_cons, not_mem_nil, or_false] at hmonths
        rcases hmonths with rfl | rfl | rfl | rfl | rfl | rfl | rfl | rfl | rfl | rfl | rfl <;> rfl
      interval_cases mp <;> norm_num at hmarch <;> norm_cast at hmarch <;> subst hmarch <;>
        simp at hlength <;> omega

/-! ## Digits -/

section

variable {ds rest : List Char} {width n : Nat}

lemma digits?_append (hds : ∀ c ∈ ds, c.isDigit = true) (hlength : ds.length = width) :
    digits? width width (ds ++ rest) = some (digitsValue ds, rest) := by
  have htake : ((ds ++ rest).take width).takeWhile Char.isDigit = ds := by
    rw [← hlength, take_left, takeWhile_eq_self_iff.2 hds]
  rw [digits?, htake, if_pos hlength.ge, drop_left]

lemma padded_spec (h : n < 10 ^ width) (hwidth : 0 < width) :
    (∀ c ∈ (padded width n).toList, c.isDigit = true) ∧ (padded width n).toList.length = width ∧
      digitsValue (padded width n).toList = n := by
  have hlength : (decimalDigits n).length ≤ width :=
    (Nat.length_toDigits_le_iff (by norm_num) hwidth).2 h
  simp only [padded, String.toList_ofList]
  refine ⟨forall_mem_append.2 ⟨fun c hc => Binary64.isDigit_of_mem_zeros c hc, fun c hc => ?_⟩, ?_, ?_⟩
  · exact Nat.isDigit_of_mem_toDigits (by norm_num) (by norm_num) hc
  · rw [length_append, length_replicate]
    omega
  · rw [Binary64.digitsValue_append, Binary64.digitsValue_zeros, Binary64.digitsValue_decimalDigits]
    simp

lemma digits?_padded (h : n < 10 ^ width) (hwidth : 0 < width) (rest : List Char) :
    digits? width width ((padded width n).toList ++ rest) = some (n, rest) := by
  obtain ⟨hdigits, hlength, hvalue⟩ := padded_spec h hwidth
  rw [digits?_append hdigits hlength, hvalue]

lemma fraction?_padded (h : n < 1000) (hrest : ∀ c ∈ rest.head?, c.isDigit = false) :
    fraction? ('.' :: ((padded 3 n).toList ++ rest)) = some (n, rest) := by
  obtain ⟨hdigits, hlength, hvalue⟩ := padded_spec (show n < 10 ^ 3 from h) (by norm_num)
  have htake : ((padded 3 n).toList ++ rest).takeWhile Char.isDigit = (padded 3 n).toList := by
    rw [takeWhile_append_of_pos hdigits]
    cases rest with
    | nil => simp
    | cons c rest => simp [hrest c rfl]
  have hne : (padded 3 n).toList.isEmpty = false := by
    cases hp : (padded 3 n).toList with
    | nil => rw [hp] at hlength; cases hlength
    | cons => rfl
  rw [fraction?, htake, hne, if_neg Bool.false_ne_true, take_append_of_le_length hlength.ge,
    take_of_length_le hlength.le, hvalue, drop_left]

end

lemma bind_of_eq_some {β : Type} {x : Option α} {a : α} (h : x = some a) (k : α → Option β) :
    (x >>= k) = k a := by
  rw [h]
  rfl

/-- A time stamp in universal time. -/
def stamp (year month day hour minute second millis : Nat) : List Char :=
  (padded 4 year).toList ++ '-' :: ((padded 2 month).toList ++ '-' :: ((padded 2 day).toList ++
    'T' :: ((padded 2 hour).toList ++ ':' :: ((padded 2 minute).toList ++
      ':' :: ((padded 2 second).toList ++ '.' :: ((padded 3 millis).toList ++ ['Z']))))))

lemma readStamp?_stamp {year hour minute second millis : Nat} (hyear : year < 10000)
    (hdays : days? year month day = some days) (hmonth : month < 100) (hday : day < 100)
    (hhour : hour < 24) (hminute : minute < 60) (hsecond : second ≤ 60) (hmillis : millis < 1000) :
    readStamp? (stamp year month day hour minute second millis) =
      some ⟨days * 86400 + (hour * 3600 + minute * 60 + min second 59 : Nat),
        if second = 60 then millis + 1000 else millis⟩ := by
  have hfour : ∀ rest (k : Nat × List Char → Option Instant),
      (digits? 4 4 ((padded 4 year).toList ++ rest) >>= k) = k (year, rest) :=
    fun rest => bind_of_eq_some (digits?_padded hyear (by norm_num) rest)
  have htwo : ∀ {n : Nat}, n < 100 → ∀ rest (k : Nat × List Char → Option Instant),
      (digits? 2 2 ((padded 2 n).toList ++ rest) >>= k) = k (n, rest) :=
    fun h rest => bind_of_eq_some (digits?_padded h (by norm_num) rest)
  have hskip := fun c rest => bind_of_eq_some (β := Instant)
    (show skip? c (c :: rest) = some rest from if_pos rfl)
  have hfraction : ∀ k : Nat × List Char → Option Instant,
      (fraction? ('.' :: ((padded 3 millis).toList ++ ['Z'])) >>= k) = k (millis, ['Z']) :=
    bind_of_eq_some (fraction?_padded hmillis (by simp))
  have htime : ∀ rest (k : List Char → Option Instant), ((skip? 'T' ('T' :: rest) <|>
      skip? 't' ('T' :: rest) <|> skip? ' ' ('T' :: rest)) >>= k) = k rest := fun rest k => rfl
  have hoffset : ∀ k : Int × List Char → Option Instant, (offset? ['Z'] >>= k) = k (0, []) :=
    fun k => rfl
  unfold readStamp? stamp
  simp only [↓hfour, ↓hskip, ↓htwo hmonth, ↓htwo hday, ↓htime, ↓htwo (show hour < 100 by omega),
    ↓htwo (show minute < 100 by omega), ↓htwo (show second < 100 by omega), ↓hfraction, ↓hoffset,
    hdays]
  rw [if_neg (by simp; omega)]
  simp

/-! ## Instants that are read -/

/-- Only the last second of a minute has leap milliseconds. -/
def IsRead (t : Instant) : Prop := t.millis < 1000 ∨ t.millis < 2000 ∧ t.seconds % 60 = 59

lemma digitsValue_lt {ds : List Char} (hds : ∀ c ∈ ds, c.isDigit = true) :
    digitsValue ds < 10 ^ ds.length := by
  induction ds using reverseRecOn with
  | nil => simp [digitsValue]
  | append_singleton ds c ih =>
    have hds' := ih fun d hd => hds d (mem_append_left _ hd)
    have hc : digitsValue [c] < 10 := by
      have hc := hds c (by simp)
      simp only [Char.isDigit, Bool.and_eq_true, decide_eq_true_eq] at hc
      have hc' : c.toNat ≤ 57 := UInt32.le_iff_toNat_le.1 hc.2
      show 0 * 10 + (c.toNat - 48) < 10
      omega
    rw [Binary64.digitsValue_append, length_append, length_singleton, pow_one, pow_succ]
    omega

lemma fraction?_lt {out : Nat × List Char} (h : fraction? cs = some out) : out.1 < 1000 := by
  unfold fraction? at h
  split at h
  · next rest =>
    dsimp only at h
    split at h
    · cases h
    · cases h
      have hds : ∀ c ∈ (rest.takeWhile Char.isDigit ++ ['0', '0']).take 3, c.isDigit = true := by
        intro c hc
        rcases mem_append.1 (mem_of_mem_take hc) with hc | hc
        · exact mem_takeWhile_imp hc
        · simp only [mem_cons, not_mem_nil, or_false, or_self] at hc
          subst hc
          rfl
      exact (digitsValue_lt hds).trans_le (Nat.pow_le_pow_right (n := 10) (j := 3) (by norm_num)
        (length_take_le _ _))
  · cases h
    norm_num

lemma offset?_mod {out : Int × List Char} (h : offset? cs = some out) : out.1 % 60 = 0 := by
  unfold offset? at h
  split at h
  · cases h
  · extract_lets signed at h
    split at h
    · cases h
      rfl
    · obtain ⟨negative, h⟩ : ∃ negative, signed negative = some out := by
        split at h
        · exact ⟨false, h⟩
        · split at h
          · exact ⟨true, h⟩
          · cases h
      obtain ⟨⟨hours, rest⟩, -, h⟩ := Option.bind_eq_some_iff.1 h
      obtain ⟨rest, -, h⟩ := Option.bind_eq_some_iff.1 h
      obtain ⟨⟨minutes, rest⟩, -, h⟩ := Option.bind_eq_some_iff.1 h
      dsimp only at h
      split at h
      · cases h
      · cases h
        split <;> omega

lemma isRead_bind {x : Option α} {k : α → Option Instant}
    (h : ∀ a, x = some a → ∀ t, k a = some t → IsRead t) (t : Instant) (ht : (x >>= k) = some t) :
    IsRead t := by
  obtain ⟨a, ha, ht⟩ := Option.bind_eq_some_iff.1 ht
  exact h a ha t ht

lemma readStamp?_isRead (cs : List Char) : ∀ t, readStamp? cs = some t → IsRead t := by
  unfold readStamp?
  iterate 11 refine isRead_bind fun _ _ => ?_
  refine isRead_bind fun millis hmillis => isRead_bind fun offset hoffset => ?_
  replace hmillis := fraction?_lt hmillis
  replace hoffset := offset?_mod hoffset
  dsimp only
  split
  · intro t ht
    cases ht
  · refine isRead_bind fun days _ t ht => ?_
    cases ht
    unfold IsRead
    dsimp only
    split <;> omega

lemma readDate?_isRead (cs : List Char) : ∀ t, readDate? cs = some t → IsRead t := by
  unfold readDate?
  iterate 5 refine isRead_bind fun _ _ => ?_
  dsimp only
  split
  · intro t ht
    cases ht
  · refine isRead_bind fun days _ t ht => ?_
    cases ht
    exact .inl (by norm_num)

lemma ofJson?_isRead {v : Json} (h : ofJson? v = some t) : IsRead t := by
  fun_induction ofJson? v with
  | case1 s =>
    rcases (Option.orElse_eq_some _ _ _).1 h with h | ⟨-, h⟩
    · exact readStamp?_isRead _ t h
    · exact readDate?_isRead _ t h
  | case2 n hn =>
    unfold ofMillis? at h
    dsimp only at h
    split at h
    · cases h
      refine .inl ?_
      dsimp only
      omega
    · cases h
  | case3 => cases h
  | case4 v ih => exact ih h
  | case5 => cases h
  | case6 => cases h

/-- The year in which an instant lies. -/
def year (t : Instant) : Int := (dateFromDays (t.seconds / 86400)).1

lemma days?_date {year : Nat} (h : dateFromDays days = ((year : Int), month, day))
    (hyear : year < 10000) : days? year month day = some days := by
  obtain ⟨hdays, hmonth, hmonth', hday, hday'⟩ := daysFromDate_dateFromDays days h
  rw [days?, if_pos ⟨by unfold minYear; omega, by unfold maxYear; omega, hmonth, hmonth', hday, hday'⟩,
    hdays]

lemma daysInMonth_le (year : Int) (month : Nat) : daysInMonth year month ≤ 31 := by
  unfold daysInMonth
  split
  · split <;> norm_num
  all_goals norm_num

lemma read?_text (ht : IsRead t) (hlow : 0 ≤ t.year) (hhigh : t.year ≤ 9999) :
    read? t.text = some t := by
  obtain ⟨seconds, millis⟩ := t
  obtain ⟨⟨y, month, day⟩, hdate⟩ : ∃ d, dateFromDays (seconds / 86400) = d := ⟨_, rfl⟩
  simp only [Instant.year, hdate] at hlow hhigh
  lift y to Nat using hlow
  have hy : y < 10000 := by omega
  have hdays := days?_date hdate hy
  obtain ⟨-, -, hmonth, -, hday⟩ := daysFromDate_dateFromDays _ hdate
  have hday := hday.trans (daysInMonth_le y month)
  have htext : (Instant.text ⟨seconds, millis⟩).toList =
      stamp y month day ((seconds % 86400).toNat / 3600) ((seconds % 86400).toNat / 60 % 60)
        ((seconds % 86400).toNat % 60 + millis / 1000) (millis % 1000) := by
    simp only [Instant.text, hdate, yearText, stamp]
    rw [if_pos ⟨by omega, hhigh⟩]
    simp
  unfold IsRead at ht
  dsimp only at ht
  rw [read?, htext, readStamp?_stamp hy hdays]
  · refine congrArg some (Instant.mk.injEq .. ▸ ⟨?_, ?_⟩)
    · omega
    · split <;> omega
  all_goals omega

lemma ofJson?_toJson (ht : IsRead t) (hlow : 0 ≤ t.year) (hhigh : t.year ≤ 9999) :
    ofJson? t.toJson = some t := by
  exact read?_text ht hlow hhigh

end Instant

/-! ## Other literals -/

lemma isHexDigit_toLower {c : Char} (h : Regex.isHexDigit c = true) :
    Regex.isHexDigit c.toLower = true ∧ c.toLower.toLower = c.toLower := by
  have hall : ∀ n < 103, Regex.isHexDigit (Char.ofNat n) = true →
      Regex.isHexDigit (Char.ofNat n).toLower = true ∧
        (Char.ofNat n).toLower.toLower = (Char.ofNat n).toLower := by decide +kernel
  have hle : c.toNat < 103 := by
    simp only [Regex.isHexDigit, Char.isDigit, Bool.or_eq_true, Bool.and_eq_true,
      decide_eq_true_eq] at h
    rcases h with (h | h) | h <;> exact (UInt32.le_iff_toNat_le.1 h.2).trans_lt (by decide)
  have hc := hall c.toNat hle
  rw [Char.ofNat_toNat] at hc
  exact hc h

lemma objectIdHex?_again {v : Json} {hex : String} (h : objectIdHex? v = some hex) :
    objectIdHex? (.obj [("$oid", .str hex)]) = some hex := by
  obtain ⟨s, hs, rfl⟩ : ∃ s, isObjectId s = true ∧ hex = String.ofList (s.toList.map Char.toLower) := by
    unfold objectIdHex? at h
    split at h
    · split at h
      · next hs => exact ⟨_, hs, (Option.some.inj h).symm⟩
      · cases h
    · split at h
      · next hs => exact ⟨_, hs.2, (Option.some.inj h).symm⟩
      · cases h
    · cases h
  simp only [isObjectId, Bool.and_eq_true, beq_iff_eq, all_eq_true] at hs
  have hlower : isObjectId (String.ofList (s.toList.map Char.toLower)) = true := by
    simp only [isObjectId, String.toList_ofList, length_map, Bool.and_eq_true, beq_iff_eq,
      all_eq_true, forall_mem_map]
    exact ⟨hs.1, fun c hc => (isHexDigit_toLower (hs.2 c hc)).1⟩
  have hsame : (s.toList.map Char.toLower).map Char.toLower = s.toList.map Char.toLower := by
    rw [map_map]
    exact map_congr_left fun c hc => (isHexDigit_toLower (hs.2 c hc)).2
  rw [objectIdHex?, if_pos ⟨rfl, hlower⟩, String.toList_ofList, hsame]

namespace Cast

variable {v w : Json}

lemma toDate?_again (h : toDate? v = some w)
    (hyears : ∀ t, Instant.ofJson? v = some t → 0 ≤ t.year ∧ t.year ≤ 9999) :
    toDate? w = some w ∧ Instant.ofJson? w = Instant.ofJson? v := by
  obtain ⟨t, ht, rfl⟩ := Option.map_eq_some_iff.1 h
  have hback := Instant.ofJson?_toJson (Instant.ofJson?_isRead ht) (hyears t ht).1 (hyears t ht).2
  exact ⟨by rw [toDate?, hback]; rfl, hback.trans ht.symm⟩

lemma toObjectId?_again (h : toObjectId? v = some w) : toObjectId? w = some w := by
  obtain ⟨hex, hhex, rfl⟩ := Option.map_eq_some_iff.1 h
  rw [toObjectId?, objectIdHex?_again hhex]
  rfl

lemma to?_again {type : PropertyType} (h : to? type v = some w)
    (hyears : type = .date → ∀ t, Instant.ofJson? v = some t → 0 ≤ t.year ∧ t.year ≤ 9999) :
    to? type w = some w ∧ (type = .date → Instant.ofJson? w = Instant.ofJson? v) := by
  cases type with
  | string | boolean =>
    obtain ⟨_, rfl⟩ := to?_stored (by decide) h
    exact ⟨rfl, nofun⟩
  | number =>
    rcases to?_stored (by decide) h with ⟨_, rfl⟩ | ⟨_, rfl⟩ <;> exact ⟨rfl, nofun⟩
  | date =>
    obtain ⟨hagain, hsame⟩ := toDate?_again h (hyears rfl)
    exact ⟨hagain, fun _ => hsame⟩
  | objectId | reference => exact ⟨toObjectId?_again h, nofun⟩
  | _ => exact ⟨rfl, nofun⟩

end Cast

/-- A literal that was cast is left as it is by another cast, and a date is still the same instant,
if its year has four digits. -/
theorem cast_again {type : PropertyType} {v w : Json} {path : String}
    (h : castForQuery type v path = .ok w)
    (hyears : type = .date → ∀ t, Instant.ofJson? v = some t → 0 ≤ t.year ∧ t.year ≤ 9999) :
    castForQuery type w path = .ok w ∧ (type = .date → Instant.ofJson? w = Instant.ofJson? v) := by
  rcases castForQuery_cases h with rfl | hto
  · exact ⟨h, fun _ => rfl⟩
  · obtain ⟨hagain, hsame⟩ := Cast.to?_again hto hyears
    refine ⟨?_, hsame⟩
    unfold castForQuery
    rw [hagain]
    split <;> rfl

/-- A leap second is written in universal time and read again. -/
theorem leap_second_cast_again : castForQuery .date (.str "2017-01-01T00:59:60.5+01:00") "c_p" =
        .ok (.obj [("$date", .str "2016-12-31T23:59:60.500Z")]) ∧
      castForQuery .date (.obj [("$date", .str "2016-12-31T23:59:60.500Z")]) "c_p" =
        .ok (.obj [("$date", .str "2016-12-31T23:59:60.500Z")]) := by
  have hread : Instant.ofJson? (.str "2017-01-01T00:59:60.5+01:00") = some ⟨1483228799, 1500⟩ := by
    decide +kernel
  have hcast : castForQuery .date (.str "2017-01-01T00:59:60.5+01:00") "c_p" =
      .ok (.obj [("$date", .str "2016-12-31T23:59:60.500Z")]) := by
    rw [castForQuery, Cast.to?, Cast.toDate?, hread]
    with_unfolding_all rfl
  refine ⟨hcast, (cast_again hcast fun _ t ht => ?_).1⟩
  cases hread.symm.trans ht
  decide

/-- A year of five digits is written with a sign, and that text is refused. -/
theorem signed_year_refused : castForQuery .date (.int 253402300800000) "c_p" =
        .ok (.obj [("$date", .str "+10000-01-01T00:00:00.000Z")]) ∧
      castForQuery .date (.obj [("$date", .str "+10000-01-01T00:00:00.000Z")]) "c_p" =
        .error ((Fault.castFailed .date "\x7b\"$date\":\"+10000-01-01T00:00:00.000Z\"\x7d").at "c_p") := by
  constructor <;> with_unfolding_all rfl

end Conduit
