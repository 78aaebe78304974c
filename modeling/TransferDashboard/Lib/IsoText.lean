/-
ISO date-time text, printed and parsed: an instance of `Lib.Joda` that has
what is documented of it (`isoText_documented`), for zones of fixed offsets.

The text is the local date and time to the millisecond and the offset, as in
`2017-01-01T13:00:00.000-08:00`, with `Z` for no offset. Reading gives back
the date, the time and the offset (`readText_printText`), and these the
instant.
-/
import TransferDashboard.Lib.Calendar
import TransferDashboard.Lib.Digits
import TransferDashboard.Lib.Joda

namespace Joda.Iso

open Scala Digits Calendar

/-- The zones' offsets, each of less than a day. -/
structure Offsets where
  minutes : DateTimeZone → Int
  bound : ∀ z, -1440 < minutes z ∧ minutes z < 1440

/-- The rest of the text after a character. -/
def expect (c : Char) : List Char → Option (List Char)
  | d :: r => if d = c then some r else none
  | [] => none

theorem expect_cons (c : Char) (r : List Char) : expect c (c :: r) = some r := if_pos rfl

/-! ## The date -/

/-- At least four digits. -/
def printYear (y : Int) : List Char :=
  (if y < 0 then ['-'] else []) ++ if y.natAbs < 10000 then pad 4 y.natAbs else printNat y.natAbs

def printDate (d : Date) : List Char :=
  printYear d.year ++ '-' :: (pad 2 d.month.toNat ++ '-' :: pad 2 d.day.toNat)

def readDate (cs : List Char) : Option (Date × List Char) :=
  (readInt cs).bind fun year => (expect '-' year.2).bind fun r =>
    (readFixed 2 r).bind fun month => (expect '-' month.2).bind fun r =>
      (readFixed 2 r).map fun day => (⟨year.1, month.1, day.1⟩, day.2)

theorem readNat_yearDigits (n : Nat) {r : List Char} (hr : NoDigit r) :
    readNat ((if n < 10000 then pad 4 n else printNat n) ++ r) = some (n, r) := by
  by_cases hn : n < 10000
  · have hne : pad 4 n ≠ [] := List.cons_ne_nil _ _
    rw [if_pos hn, readNat_digits hne (fun c hc => isDigit_of_mem_pad hc) hr, ofDigitChars_pad_of_lt hn]
  · rw [if_neg hn]
    exact readNat_printNat n hr

theorem yearDigits_eq_cons (n : Nat) :
    ∃ c r, (if n < 10000 then pad 4 n else printNat n) = c :: r ∧ c.isDigit = true := by
  by_cases hn : n < 10000
  · rw [if_pos hn]
    exact ⟨_, _, rfl, isDigit_digitChar _ (Nat.mod_lt _ (by decide))⟩
  · rw [if_neg hn]
    exact printNat_eq_cons n

theorem readInt_printYear (y : Int) {r : List Char} (hr : NoDigit r) : readInt (printYear y ++ r) = some (y, r) := by
  have hread := readNat_yearDigits y.natAbs hr
  rw [printYear, List.append_assoc]
  by_cases hy : y < 0
  · simp only [if_pos hy, List.cons_append, List.nil_append, readInt, hread, Option.map_some]
    rw [show -(y.natAbs : Int) = y by omega]
  · obtain ⟨c, ds, hds, hc⟩ := yearDigits_eq_cons y.natAbs
    rw [hds, List.cons_append] at hread ⊢
    rw [if_neg hy, List.nil_append, readInt_of_digit hc, hread, Option.map_some]
    rw [show (y.natAbs : Int) = y by omega]

theorem readDate_printDate {d : Date} (hm : 0 ≤ d.month ∧ d.month < 100) (hd : 0 ≤ d.day ∧ d.day < 100)
    (r : List Char) : readDate (printDate d ++ r) = some (d, r) := by
  have hmonth : ((d.month.toNat : Nat) : Int) = d.month := Int.toNat_of_nonneg hm.1
  have hday : ((d.day.toNat : Nat) : Int) = d.day := Int.toNat_of_nonneg hd.1
  simp only [readDate, printDate, List.append_assoc, List.cons_append,
    readInt_printYear d.year (noDigit_cons (c := '-') rfl), Option.bind_some, expect_cons,
    readFixed_pad (show d.month.toNat < 10 ^ 2 by omega), readFixed_pad (show d.day.toNat < 10 ^ 2 by omega),
    Option.map_some, hmonth, hday]

/-! ## The time of day -/

/-- Hours, minutes, seconds and milliseconds of a day's milliseconds. -/
def printTime (millis : Nat) : List Char :=
  pad 2 (millis / 3600000) ++ ':' :: (pad 2 (millis / 60000 % 60) ++ ':' :: (pad 2 (millis / 1000 % 60)
    ++ '.' :: pad 3 (millis % 1000)))

def readTime (cs : List Char) : Option (Nat × List Char) :=
  (readFixed 2 cs).bind fun hours => (expect ':' hours.2).bind fun r =>
    (readFixed 2 r).bind fun minutes => (expect ':' minutes.2).bind fun r =>
      (readFixed 2 r).bind fun seconds => (expect '.' seconds.2).bind fun r =>
        (readFixed 3 r).bind fun millis =>
          if hours.1 < 24 ∧ minutes.1 < 60 ∧ seconds.1 < 60 then
            some (3600000 * hours.1 + 60000 * minutes.1 + 1000 * seconds.1 + millis.1, millis.2)
          else none

theorem readTime_printTime {millis : Nat} (h : millis < 86400000) (r : List Char) :
    readTime (printTime millis ++ r) = some (millis, r) := by
  have hvalid : millis / 3600000 < 24 ∧ millis / 60000 % 60 < 60 ∧ millis / 1000 % 60 < 60 := by omega
  have hsum : 3600000 * (millis / 3600000) + 60000 * (millis / 60000 % 60) + 1000 * (millis / 1000 % 60)
      + millis % 1000 = millis := by omega
  simp only [readTime, printTime, List.append_assoc, List.cons_append, Option.bind_some, expect_cons,
    readFixed_pad (show millis / 3600000 < 10 ^ 2 by omega), readFixed_pad (show millis / 60000 % 60 < 10 ^ 2 by omega),
    readFixed_pad (show millis / 1000 % 60 < 10 ^ 2 by omega), readFixed_pad (show millis % 1000 < 10 ^ 3 by omega),
    if_pos hvalid, hsum]

/-! ## The offset -/

def printOffset (minutes : Int) : List Char :=
  if minutes = 0 then ['Z']
  else (if minutes < 0 then '-' else '+') :: (pad 2 (minutes.natAbs / 60) ++ ':' :: pad 2 (minutes.natAbs % 60))

/-- Hours and minutes after the sign. -/
def readOffsetDigits (cs : List Char) : Option (Nat × List Char) :=
  (readFixed 2 cs).bind fun hours => (expect ':' hours.2).bind fun r =>
    (readFixed 2 r).bind fun minutes =>
      if hours.1 < 24 ∧ minutes.1 < 60 then some (60 * hours.1 + minutes.1, minutes.2) else none

def readOffset : List Char → Option (Int × List Char)
  | 'Z' :: r => some (0, r)
  | '-' :: r => (readOffsetDigits r).map fun x => (-(x.1 : Int), x.2)
  | '+' :: r => (readOffsetDigits r).map fun x => ((x.1 : Int), x.2)
  | _ => none

theorem readOffset_printOffset {minutes : Int} (h : -1440 < minutes ∧ minutes < 1440) (r : List Char) :
    readOffset (printOffset minutes ++ r) = some (minutes, r) := by
  have hread : readOffsetDigits (pad 2 (minutes.natAbs / 60) ++ ':' :: (pad 2 (minutes.natAbs % 60) ++ r)) =
      some (minutes.natAbs, r) := by
    have hvalid : minutes.natAbs / 60 < 24 ∧ minutes.natAbs % 60 < 60 := by omega
    have hsum : 60 * (minutes.natAbs / 60) + minutes.natAbs % 60 = minutes.natAbs := by omega
    simp only [readOffsetDigits, readFixed_pad (show minutes.natAbs / 60 < 10 ^ 2 by omega), Option.bind_some,
      expect_cons, readFixed_pad (show minutes.natAbs % 60 < 10 ^ 2 by omega), if_pos hvalid, hsum]
  rw [printOffset]
  by_cases h0 : minutes = 0
  · rw [if_pos h0, h0]
    rfl
  · rw [if_neg h0]
    by_cases hneg : minutes < 0
    · simp only [if_pos hneg, List.cons_append, List.append_assoc, readOffset, hread, Option.map_some]
      rw [show -(minutes.natAbs : Int) = minutes by omega]
    · simp only [if_neg hneg, List.cons_append, List.append_assoc, readOffset, hread, Option.map_some]
      rw [show (minutes.natAbs : Int) = minutes by omega]

/-! ## The text -/

/-- Local milliseconds since 1970-01-01T00:00, printed with an offset. -/
def printText (localMillis minutes : Int) : List Char :=
  printDate (ofDays (localMillis / 86400000)) ++ 'T' :: (printTime (localMillis % 86400000).toNat ++ printOffset minutes)

/-- The local milliseconds and the offset of a text, of a date there is. -/
def readText (cs : List Char) : Option (Int × Int) :=
  (readDate cs).bind fun date => (expect 'T' date.2).bind fun r => (readTime r).bind fun time =>
    (readOffset time.2).bind fun offset =>
      if offset.2 = [] ∧ ofDays (toDays date.1) = date.1 then
        some (86400000 * toDays date.1 + time.1, offset.1)
      else none

theorem readText_printText (localMillis : Int) {minutes : Int} (h : -1440 < minutes ∧ minutes < 1440) :
    readText (printText localMillis minutes) = some (localMillis, minutes) := by
  have hb := ofDays_bounds (localMillis / 86400000)
  have hdate := readDate_printDate (d := ofDays (localMillis / 86400000)) (by omega) (by omega)
    ('T' :: (printTime (localMillis % 86400000).toNat ++ printOffset minutes))
  have hlo := Int.emod_nonneg localMillis (show (86400000 : Int) ≠ 0 by decide)
  have hhi := Int.emod_lt_of_pos localMillis (show (0 : Int) < 86400000 by decide)
  have hmillis : (localMillis % 86400000).toNat < 86400000 := by omega
  have htime := readTime_printTime hmillis (printOffset minutes)
  have hoffset := readOffset_printOffset h []
  rw [List.append_nil] at hoffset
  have hsum : 86400000 * (localMillis / 86400000) + ((localMillis % 86400000).toNat : Int) = localMillis := by
    rw [Int.toNat_of_nonneg hlo]
    exact Int.mul_ediv_add_emod localMillis 86400000
  simp only [readText, printText, hdate, Option.bind_some, expect_cons, htime, hoffset, toDays_ofDays, hsum,
    and_self, if_true]

def invalidFormat (text : String) : Throwable := .exception "IllegalArgumentException" ("Invalid format: " ++ text)

variable (Z : Offsets)

def print (dt : DateTime) : String :=
  String.ofList (printText (dt.millis.toInt + 60000 * Z.minutes dt.zone) (Z.minutes dt.zone))

/-- The instant of a text, if it fits a `Long`, in the zone given. -/
def parseDateTime (zone : DateTimeZone) (text : String) : Try DateTime :=
  match readText text.toList with
  | some x =>
    if (Int64.ofInt (x.1 - 60000 * x.2)).toInt = x.1 - 60000 * x.2 then .ok ⟨Int64.ofInt (x.1 - 60000 * x.2), zone⟩
    else .error (invalidFormat text)
  | none => .error (invalidFormat text)

theorem parseDateTime_print (zone : DateTimeZone) (dt : DateTime) :
    parseDateTime zone (print Z dt) = .ok ⟨dt.millis, zone⟩ := by
  have hread := readText_printText (dt.millis.toInt + 60000 * Z.minutes dt.zone) (Z.bound dt.zone)
  simp only [parseDateTime, print, String.toList_ofList, hread, Int.add_sub_cancel, Int64.ofInt_toInt, if_true]

theorem zone_of_parseDateTime {zone : DateTimeZone} {text : String} {dt : DateTime}
    (h : parseDateTime zone text = .ok dt) : dt.zone = zone := by
  unfold parseDateTime at h
  split at h
  · split at h
    · rw [Except.ok.injEq] at h
      rw [← h]
    · cases h
  · cases h

/-- The text of an instant in two zones is one text when they have one offset. -/
theorem print_eq_iff (t : Int64) (z z' : DateTimeZone) :
    print Z ⟨t, z⟩ = print Z ⟨t, z'⟩ ↔ 60000 * Z.minutes z = 60000 * Z.minutes z' := by
  refine ⟨fun h => ?_, fun h => ?_⟩
  · have hlist := congrArg String.toList h
    simp only [print, String.toList_ofList] at hlist
    have hread := readText_printText (t.toInt + 60000 * Z.minutes z) (Z.bound z)
    rw [hlist, readText_printText _ (Z.bound z'), Option.some.injEq, Prod.mk.injEq] at hread
    rw [hread.2]
  · have hm : Z.minutes z = Z.minutes z' := by omega
    rw [print, print, hm]

end Iso

/-- The ISO format over zones of fixed offsets. -/
def isoText (Z : Iso.Offsets) : IsoTime where
  getOffset zone _ := 60000 * Z.minutes zone
  print := Iso.print Z
  parseDateTime := Iso.parseDateTime

theorem isoText_documented (Z : Iso.Offsets) : (isoText Z).Documented where
  parse_print := by
    -- Unfolded first: the unifier would unfold the reader instead.
    simp only [isoText]
    exact Iso.parseDateTime_print Z
  parse_zone _ _ _ := Iso.zone_of_parseDateTime
  print_eq_iff := Iso.print_eq_iff Z

end Joda
