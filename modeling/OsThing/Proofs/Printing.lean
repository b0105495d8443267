/-
The three copies of the format loop print the same.

`rendered` says what a format stands for with the arguments behind it, as bytes, and each copy
is compared with it.  All that a copy has to do for this is in `Prints`: its functions put out
a byte, a string, and a number as its numeral.  The induction is on the format; the cursor of
the arguments moves with it, at the directives that take one.
-/
import OsThing.Fs.Ramfs
import OsThing.Proofs.Kputs
import OsThing.Proofs.Numbers

namespace OsThing.Stdio

open Ram Drivers Numerals

/-! ### What a format stands for -/

/-- The letter behind a `%` takes an argument. -/
def takesArg (c : UInt8) : Prop :=
  c = 'c'.toUInt8 ∨ c = 's'.toUInt8 ∨ c = 'd'.toUInt8 ∨ c = 'u'.toUInt8 ∨ c = 'x'.toUInt8

instance (c : UInt8) : Decidable (takesArg c) := inferInstanceAs (Decidable (_ ∨ _))

/-- Where the next argument is, behind a directive. -/
def nextArg (c : UInt8) (args : UInt32) : UInt32 := if takesArg c then args + 4 else args

/-- The string at an address. -/
def stringAt (m : Memory) (a : UInt32) : List UInt8 :=
  (strlen m (2 ^ 32) a).elim [] (bytesAt m a)

/-- What a directive stands for.  An unknown one stands for nothing. -/
def directiveBytes (m : Memory) (c : UInt8) (args : UInt32) : List UInt8 :=
  let arg := word m args
  if c = '%'.toUInt8 then ['%'.toUInt8]
  else if c = 'c'.toUInt8 then [arg.toUInt8]
  else if c = 's'.toUInt8 then stringAt m arg
  else if c = 'd'.toUInt8 then spell decimalLetter (numeral 10 arg.toNat)
  else if c = 'u'.toUInt8 then spell decimalLetter (numeral 10 arg.toNat)
  else if c = 'x'.toUInt8 then spell hexLetter (numeral 16 arg.toNat)
  else []

/-- What a format stands for, with its arguments from an address on. -/
def rendered (m : Memory) : List UInt8 → UInt32 → List UInt8
  | [], _ => []
  | [c], _ => if c = '%'.toUInt8 then [] else [c]
  | c :: d :: rest, args =>
      if c = '%'.toUInt8 then directiveBytes m d args ++ rendered m rest (nextArg d args)
      else c :: rendered m (d :: rest) args

/-- The arguments are those that the format asks for: where it asks for a string there is one,
and it has less than 65536 bytes.  Any word is a number or a character. -/
def Matches (m : Memory) : List UInt8 → UInt32 → Prop
  | [], _ => True
  | [_], _ => True
  | c :: d :: rest, args =>
      if c = '%'.toUInt8 then
        (d = 's'.toUInt8 → ∃ s, IsString m (word m args) s ∧ s.length < 65536) ∧
          Matches m rest (nextArg d args)
      else Matches m (d :: rest) args

/-- A character that is none of a directive stands for itself. -/
theorem rendered_plain (m : Memory) {c : UInt8} (hc : c ≠ '%'.toUInt8) (rest : List UInt8)
    (args : UInt32) : rendered m (c :: rest) args = c :: rendered m rest args := by
  cases rest with
  | nil => simp [rendered, hc]
  | cons d rest => simp [rendered, hc]

theorem Matches.plain {m : Memory} {c : UInt8} (hc : c ≠ '%'.toUInt8) {rest : List UInt8}
    {args : UInt32} (h : Matches m (c :: rest) args) : Matches m rest args := by
  cases rest with
  | nil => trivial
  | cons d rest => simpa [Matches, hc] using h

/-- The zero behind a format that ends with a `%` is no directive. -/
theorem directive_stop (m : Memory) (args : UInt32) :
    directiveBytes m 0 args = [] ∧ nextArg 0 args = args := by
  constructor
  · unfold directiveBytes
    dsimp only
    repeat rw [if_neg (by decide)]
  · unfold nextArg
    rw [if_neg (by decide)]

/-! ### A copy of the loop -/

/-- The functions of a copy put out what they are given, as `bytes` shows it. -/
structure Prints (m : Memory) (p : Printers) (bytes : List Call → List UInt8) : Prop where
  nil : bytes [] = []
  append : ∀ calls calls', bytes (calls ++ calls') = bytes calls ++ bytes calls'
  char : ∀ c, bytes (p.putChar c) = [c]
  string : ∀ a s, IsString m a s → s.length < 65536 →
    ∃ calls, p.putString a = some calls ∧ bytes calls = s
  num : ∀ n, ∃ calls, p.putNum n = some calls ∧
    bytes calls = spell decimalLetter (numeral 10 n.toNat)
  hex : ∀ n, ∃ calls, p.putHex n = some calls ∧ bytes calls = spell hexLetter (numeral 16 n.toNat)

variable {m : Memory} {p : Printers} {bytes : List Call → List UInt8}

/-- The character of a string at a place, or the zero behind it. -/
theorem string_char {a : UInt32} {s : List UInt8} (h : IsString m a s) {i : Nat}
    (hi : i ≤ s.length) : m (a + UInt32.ofNat i) = (s.drop i).headD 0 := by
  by_cases hend : i < s.length
  · rw [h.bytes i hend, List.drop_eq_getElem_cons hend, List.headD_cons]
  · obtain rfl : i = s.length := by omega
    rw [h.stop, List.drop_length, List.headD_nil]

theorem bytesAt_string {a : UInt32} {s : List UInt8} (h : IsString m a s) :
    bytesAt m a s.length = s := by
  apply List.ext_getElem
  · simp [bytesAt]
  · intro i _ hi
    simp [bytesAt, h.bytes i hi]

theorem stringAt_eq {a : UInt32} {s : List UInt8} (h : IsString m a s) : stringAt m a = s := by
  rw [stringAt, strlen_eq s h h.length_lt, Option.elim_some, bytesAt_string h]

/-- One directive. -/
theorem Prints.directive (h : Prints m p bytes) {c : UInt8} {args : UInt32}
    (hstring : c = 's'.toUInt8 → ∃ s, IsString m (word m args) s ∧ s.length < 65536) :
    ∃ calls, directive p m c args = some (calls, nextArg c args) ∧
      bytes calls = directiveBytes m c args := by
  unfold Stdio.directive directiveBytes nextArg
  dsimp only
  by_cases hpercent : c = '%'.toUInt8
  · subst hpercent
    exact ⟨_, by rw [if_pos rfl, if_neg (by decide)], by rw [if_pos rfl, h.char]⟩
  rw [if_neg hpercent, if_neg hpercent]
  by_cases hchar : c = 'c'.toUInt8
  · subst hchar
    exact ⟨_, by rw [if_pos rfl, if_pos (by decide)], by rw [if_pos rfl, h.char]⟩
  rw [if_neg hchar, if_neg hchar]
  by_cases hs : c = 's'.toUInt8
  · obtain ⟨s, hs', hshort⟩ := hstring hs
    obtain ⟨calls, hput, hbytes⟩ := h.string _ s hs' hshort
    subst hs
    exact ⟨calls, by rw [if_pos rfl, hput, if_pos (by decide)]; rfl,
      by rw [if_pos rfl, hbytes, stringAt_eq hs']⟩
  rw [if_neg hs, if_neg hs]
  obtain ⟨decimal, hdecimal, hnum⟩ := h.num (word m args)
  by_cases hd : c = 'd'.toUInt8
  · subst hd
    exact ⟨decimal, by rw [if_pos rfl, hdecimal, if_pos (by decide)]; rfl,
      by rw [if_pos rfl, hnum]⟩
  rw [if_neg hd, if_neg hd]
  by_cases hu : c = 'u'.toUInt8
  · subst hu
    exact ⟨decimal, by rw [if_pos rfl, hdecimal, if_pos (by decide)]; rfl,
      by rw [if_pos rfl, hnum]⟩
  rw [if_neg hu, if_neg hu]
  obtain ⟨hexadecimal, hhexadecimal, hhex⟩ := h.hex (word m args)
  by_cases hx : c = 'x'.toUInt8
  · subst hx
    exact ⟨hexadecimal, by rw [if_pos rfl, hhexadecimal, if_pos (by decide)]; rfl,
      by rw [if_pos rfl, hhex]⟩
  rw [if_neg hx, if_neg hx]
  exact ⟨[], by rw [if_neg (by simp [takesArg, hchar, hs, hd, hu, hx])], h.nil⟩

/-- Behind a directive the format goes on, after a `%` at the end with nothing left. -/
theorem Matches.percent {rest : List UInt8} {args : UInt32}
    (h : Matches m ('%'.toUInt8 :: rest) args) :
    Matches m rest.tail (nextArg (rest.headD 0) args) ∧
      (rest.headD 0 = 's'.toUInt8 → ∃ s, IsString m (word m args) s ∧ s.length < 65536) ∧
      rendered m ('%'.toUInt8 :: rest) args = directiveBytes m (rest.headD 0) args ++
        rendered m rest.tail (nextArg (rest.headD 0) args) := by
  cases rest with
  | nil =>
      refine ⟨trivial, ?_, ?_⟩
      · intro hs
        exact absurd hs (by decide)
      · simp [rendered, (directive_stop m args).1]
  | cons d rest =>
      simp only [Matches, if_true] at h
      exact ⟨h.2, h.1, by simp [rendered]⟩

/-- From a character of the format on.  `rest` is what is left of it. -/
theorem Prints.loop (h : Prints m p bytes) {format : UInt32} {fmt : List UInt8}
    (hformat : IsString m format fmt) :
    ∀ (fuel i : Nat) (rest : List UInt8) (args : UInt32), fmt.drop i = rest → rest.length < fuel →
      Matches m rest args →
      ∃ calls, formatLoop p m format fmt.length fuel i args = some calls ∧
        bytes calls = rendered m rest args := by
  intro fuel
  induction fuel with
  | zero => intro i rest args _ hfuel; omega
  | succ fuel ih =>
      intro i rest args hrest hfuel hmatches
      rw [formatLoop]
      cases rest with
      | nil =>
          have hend := List.drop_eq_nil_iff.mp hrest
          rw [if_neg (by omega)]
          exact ⟨[], rfl, h.nil⟩
      | cons c rest =>
          have hi : i < fmt.length := by
            by_contra hend
            rw [List.drop_of_length_le (by omega)] at hrest
            cases hrest
          have hnext : fmt.drop (i + 1) = rest := by
            rw [← List.drop_drop, hrest, List.drop_one, List.tail_cons]
          have hc : m (format + UInt32.ofNat i) = c := by
            rw [string_char hformat (by omega), hrest, List.headD_cons]
          rw [if_pos (by omega), hc]
          dsimp only
          rw [List.length_cons] at hfuel
          by_cases hpercent : c = '%'.toUInt8
          · subst hpercent
            rw [if_pos rfl, string_char hformat (show i + 1 ≤ fmt.length by omega), hnext]
            have hbehind : fmt.drop (i + 2) = rest.tail := by
              rw [show i + 2 = i + 1 + 1 from rfl, ← List.drop_drop, hnext, List.drop_one]
            obtain ⟨hmatches', hstring, hrendered⟩ := hmatches.percent
            obtain ⟨first, hdirective, hfirst⟩ := h.directive hstring
            obtain ⟨others, hloop, hothers⟩ := ih (i + 2) rest.tail _ hbehind
              (by rw [List.length_tail]; omega) hmatches'
            refine ⟨first ++ others, ?_, ?_⟩
            · rw [hdirective, Option.bind_some, hloop, Option.map_some]
            · rw [h.append, hfirst, hothers, hrendered]
          · obtain ⟨others, hloop, hothers⟩ := ih (i + 1) rest args hnext (by omega)
              (hmatches.plain hpercent)
            refine ⟨p.putChar c ++ others, ?_, ?_⟩
            · rw [if_neg hpercent, hloop, Option.map_some]
            · rw [h.append, h.char, hothers, rendered_plain m hpercent, List.singleton_append]

/-- What a whole format prints.  The `int` that is the length of one of 2^31 bytes or more is
below zero. -/
def printed (m : Memory) (fmt : List UInt8) (args : UInt32) : List UInt8 :=
  if fmt.length < 2 ^ 31 then rendered m fmt args else []

theorem Prints.formatWith (h : Prints m p bytes) {format args : UInt32} {fmt : List UInt8}
    (hformat : IsString m format fmt) (hmatches : Matches m fmt args) :
    ∃ calls, formatWith p m format args = some calls ∧ bytes calls = printed m fmt args := by
  have hlt := hformat.length_lt
  have hnat : (UInt32.ofNat fmt.length).toNat = fmt.length := UInt32.toNat_ofNat_of_lt' hlt
  have hslen := Fs.asInt_eq (UInt32.ofNat fmt.length)
  rw [hnat] at hslen
  unfold Stdio.formatWith printed
  rw [strlen_eq fmt hformat hlt, Option.bind_some]
  show ∃ calls, formatLoop p m format (Fs.asInt (UInt32.ofNat fmt.length))
    ((Fs.asInt (UInt32.ofNat fmt.length)).toNat + 1) 0 args = some calls ∧ _
  by_cases hshort : fmt.length < 2 ^ 31
  · rw [hslen, if_pos hshort, if_pos hshort, Int.toNat_natCast]
    exact h.loop hformat _ 0 fmt args List.drop_zero (Nat.lt_succ_self _) hmatches
  · rw [hslen, if_neg hshort, if_neg hshort]
    refine ⟨[], ?_, h.nil⟩
    rw [formatLoop, if_neg (by omega)]

/-! ### The three copies -/

theorem consoleBytes_append (calls calls' : List Call) :
    consoleBytes (calls ++ calls') = consoleBytes calls ++ consoleBytes calls' :=
  List.flatMap_append

theorem fileBytes_append (fd : Int) (calls calls' : List Call) :
    fileBytes fd (calls ++ calls') = fileBytes fd calls ++ fileBytes fd calls' :=
  List.flatMap_append

theorem consolePrinters_prints (m : Memory) : Prints m (consolePrinters m) consoleBytes where
  nil := rfl
  append := consoleBytes_append
  char c := consoleBytes_kputchar [c]
  string a s h hshort := by
    refine ⟨_, kputs_short _ h (by omega) [], ?_⟩
    have hfold : ∀ (s : List UInt8) (calls : List Call),
        s.foldl (fun calls c => calls ++ [Call.kputchar c]) calls = calls ++ s.map .kputchar := by
      intro s
      induction s with
      | nil => simp
      | cons c s ih => intro calls; simp [ih]
    rw [hfold, List.nil_append, consoleBytes_kputchar]
  num n := ⟨_, printDigits_eq decimalLetter (by decide) (by decide) .kputchar n,
    consoleBytes_kputchar _⟩
  hex n := ⟨_, printDigits_eq hexLetter (by decide) (by decide) .kputchar n,
    consoleBytes_kputchar _⟩

/-- The functions that write to a descriptor, in the kernel and in programs. -/
theorem filePrinters_prints (fd : Int) (m : Memory) :
    Prints m (filePrinters fd m) (fileBytes fd) where
  nil := rfl
  append := fileBytes_append fd
  char c := fileBytes_write fd [c]
  string a s h _ := by
    refine ⟨[.write fd s], ?_, by simp [fileBytes]⟩
    show writeString fd m a = _
    rw [writeString, strlen_eq s h h.length_lt, Option.map_some, bytesAt_string h]
  num n := ⟨_, printDigits_eq decimalLetter (by decide) (by decide) (fun c => .write fd [c]) n,
    fileBytes_write fd _⟩
  hex n := ⟨_, printDigits_eq hexLetter (by decide) (by decide) (fun c => .write fd [c]) n,
    fileBytes_write fd _⟩

/-! ### What the debug file gets -/

/-- No call is one of `kputchar`. -/
def OnlyWrites (calls : List Call) : Prop := ∀ call ∈ calls, ∃ fd buf, call = .write fd buf

theorem OnlyWrites.append {calls calls' : List Call} (h : OnlyWrites calls)
    (h' : OnlyWrites calls') : OnlyWrites (calls ++ calls') := by
  intro call hcall
  rcases List.mem_append.mp hcall with hmem | hmem
  · exact h call hmem
  · exact h' call hmem

theorem OnlyWrites.hidden {calls : List Call} (h : OnlyWrites calls) : consoleBytes calls = [] := by
  apply List.flatMap_eq_nil_iff.mpr
  intro call hcall
  obtain ⟨fd, buf, rfl⟩ := h call hcall
  rfl

theorem printDigits_onlyWrites {fd : Int} {base n : UInt32} {letter : UInt32 → UInt8}
    {calls : List Call} (h : printDigits (fun c => .write fd [c]) base letter n = some calls) :
    OnlyWrites calls := by
  obtain ⟨buf, -, rfl⟩ := Option.map_eq_some_iff.mp h
  apply OnlyWrites.append
  · intro call hcall
    by_cases hzero : n = 0
    · simp only [hzero, if_true, List.mem_singleton] at hcall
      exact ⟨fd, _, hcall⟩
    · simp [hzero] at hcall
  · intro call hcall
    obtain ⟨c, -, rfl⟩ := List.mem_map.mp hcall
    exact ⟨fd, _, rfl⟩

theorem fileDirective_onlyWrites {fd : Int} {c : UInt8} {args next : UInt32} {calls : List Call}
    (h : directive (filePrinters fd m) m c args = some (calls, next)) : OnlyWrites calls := by
  have hchar : ∀ c, OnlyWrites [.write fd [c]] := by
    intro c call hcall
    exact ⟨fd, [c], List.mem_singleton.mp hcall⟩
  have hstring : ∀ a calls, writeString fd m a = some calls → OnlyWrites calls := by
    intro a calls hwrite call hcall
    obtain ⟨length, -, rfl⟩ := Option.map_eq_some_iff.mp hwrite
    exact ⟨fd, _, List.mem_singleton.mp hcall⟩
  have hmap : ∀ {r : Option (List Call)} {behind : UInt32}, (∀ calls, r = some calls → OnlyWrites calls) →
      r.map (·, behind) = some (calls, next) → OnlyWrites calls := by
    intro r behind hr hpair
    obtain ⟨calls', hcalls, hpair⟩ := Option.map_eq_some_iff.mp hpair
    obtain ⟨rfl, -⟩ := Prod.mk.inj hpair
    exact hr _ hcalls
  unfold directive at h
  dsimp only at h
  split at h
  · obtain ⟨rfl, -⟩ := Prod.mk.inj (Option.some.inj h)
    exact hchar _
  split at h
  · obtain ⟨rfl, -⟩ := Prod.mk.inj (Option.some.inj h)
    exact hchar _
  split at h
  · exact hmap (hstring _) h
  split at h
  · exact hmap (fun _ => printDigits_onlyWrites) h
  split at h
  · exact hmap (fun _ => printDigits_onlyWrites) h
  split at h
  · exact hmap (fun _ => printDigits_onlyWrites) h
  · obtain ⟨rfl, -⟩ := Prod.mk.inj (Option.some.inj h)
    intro call hcall
    cases hcall

/-- `kvfprintf` calls `write` and nothing else. -/
theorem kvfprintf_onlyWrites {fd : Int} {format args : UInt32} {calls : List Call}
    (h : kvfprintf fd m format args = some calls) : OnlyWrites calls := by
  have hloop : ∀ (slen : Int) (fuel i : Nat) (args : UInt32) (calls : List Call),
      formatLoop (filePrinters fd m) m format slen fuel i args = some calls → OnlyWrites calls := by
    intro slen fuel
    induction fuel with
    | zero => intro i args calls h; cases h
    | succ fuel ih =>
        intro i args calls h
        rw [formatLoop] at h
        dsimp only at h
        split at h
        · split at h
          · obtain ⟨⟨first, next⟩, hdirective, hrest⟩ := Option.bind_eq_some_iff.mp h
            obtain ⟨others, hothers, rfl⟩ := Option.map_eq_some_iff.mp hrest
            exact (fileDirective_onlyWrites hdirective).append (ih _ _ _ hothers)
          · obtain ⟨others, hothers, rfl⟩ := Option.map_eq_some_iff.mp h
            refine OnlyWrites.append ?_ (ih _ _ _ hothers)
            intro call hcall
            exact ⟨fd, _, List.mem_singleton.mp hcall⟩
        · obtain rfl := Option.some.inj h
          intro call hcall
          cases hcall
  obtain ⟨length, -, h⟩ := Option.bind_eq_some_iff.mp h
  exact hloop _ _ _ _ _ h

/--
**The three formatters agree.**  For every format, and arguments that match it with strings of
less than 65536 bytes: all three return, and the bytes that the kernel's `printf` gives to
`kputchar`, with a debug file or without, are those that `kvfprintf` writes to its descriptor
and those that the `printf` of programs writes to `stdout`.
-/
theorem formatters_agree {format args : UInt32} {fmt : List UInt8}
    (hformat : IsString m format fmt) (hmatches : Matches m fmt args) (debugFile ser0 fd : Int) :
    ∃ kernel file user bytes,
      (printf debugFile ser0 m format args = some kernel ∧ consoleBytes kernel = bytes) ∧
      (kvfprintf fd m format args = some file ∧ fileBytes fd file = bytes) ∧
      UserStdio.printf m format args = some user ∧ fileBytes UserStdio.stdout user = bytes := by
  have hfile : ∀ fd, ∃ calls, kvfprintf fd m format args = some calls ∧
      fileBytes fd calls = printed m fmt args := by
    intro fd
    exact (filePrinters_prints fd m).formatWith hformat hmatches
  obtain ⟨console, hconsole, hshown⟩ := (consolePrinters_prints m).formatWith hformat hmatches
  obtain ⟨file, hkvfprintf, hwritten⟩ := hfile fd
  obtain ⟨user, huser, hout⟩ := hfile UserStdio.stdout
  obtain ⟨debug, hdebug, -⟩ := hfile ser0
  have hkernel : ∃ kernel, printf debugFile ser0 m format args = some kernel ∧
      consoleBytes kernel = printed m fmt args := by
    unfold printf
    rw [hconsole, hdebug]
    by_cases hopen : debugFile > -1
    · rw [if_pos hopen]
      refine ⟨debug ++ console, rfl, ?_⟩
      rw [consoleBytes_append, (kvfprintf_onlyWrites hdebug).hidden, List.nil_append, hshown]
    · rw [if_neg hopen]
      exact ⟨console, rfl, hshown⟩
  obtain ⟨kernel, hprintf, hkernel⟩ := hkernel
  exact ⟨kernel, file, user, _, ⟨hprintf, hkernel⟩, ⟨hkvfprintf, hwritten⟩, huser, hout⟩

/-- The format `"%d%"`, with one number behind it. -/
theorem formatters_agree_number :
    ∃ kernel file user bytes,
      (printf 3 3 (ofBytes [37, 100, 37]) 0 64 = some kernel ∧ consoleBytes kernel = bytes) ∧
      (kvfprintf 4 (ofBytes [37, 100, 37]) 0 64 = some file ∧ fileBytes 4 file = bytes) ∧
      UserStdio.printf (ofBytes [37, 100, 37]) 0 64 = some user ∧
        fileBytes UserStdio.stdout user = bytes := by
  refine formatters_agree (IsString.ofBytes (by decide) (by decide)) ?_ 3 3 4
  refine ⟨?_, trivial⟩
  intro hstring
  exact absurd hstring (by decide)

end OsThing.Stdio
