import Gunda.Capture.Connections
import Gunda.Lib.Bytes
import Gunda.Lib.Durable
import Gunda.Lib.Program
import Gunda.Lib.Scan

/-!
# The pairing token

The secret of `gunda-capture/src/pairing.rs` and its file. A call may be cut off at any
operation, and a write that fails leaves a part of what it was to write.
-/
namespace Gunda.Capture

open Gunda.Lib Gunda.Lib.Text

def TOKEN_BYTES : Nat := 32

def TOKEN_LENGTH : Nat := TOKEN_BYTES * 2

def DIGITS : Text := "0123456789abcdef".toList

@[ext]
structure PairingToken where
  text : Text
  length : text.length = TOKEN_LENGTH
  digits : ∀ c ∈ text, c ∈ DIGITS

/-- The errors of a token and its file. -/
inductive TokenError where
  | invalidToken
  | tokenFile (kind : IoErrorKind)
  | random

def encodeHex (bytes : Bytes) : Text :=
  bytes.flatMap fun byte : UInt8 =>
    [DIGITS.getD (byte >>> 4).toNat '0', DIGITS.getD (byte &&& 0x0F).toNat '0']

def isAsciiHexdigit (c : Char) : Bool := c ∈ "0123456789abcdefABCDEF".toList

theorem toLower_digit (c : Char) : c.toLower ∈ DIGITS ↔ isAsciiHexdigit c = true := by
  by_cases ascii : c.toNat < 128
  · have all : ∀ n < 128, ((Char.ofNat n).toLower ∈ DIGITS ↔
        isAsciiHexdigit (Char.ofNat n) = true) := by decide +kernel
    simpa using all c.toNat ascii
  · have small : (DIGITS ++ "0123456789abcdefABCDEF".toList).all (·.toNat < 128) = true := by decide
    simp only [List.all_eq_true, decide_eq_true_iff] at small
    have same : c.toLower = c := dif_neg fun upper =>
      ascii (Nat.lt_of_le_of_lt (UInt32.le_iff_toNat_le.mp upper.2) (by decide))
    rw [same]
    exact ⟨fun digit => absurd (small c (List.mem_append_left _ digit)) ascii, fun digit =>
      absurd (small c (List.mem_append_right _ (of_decide_eq_true digit))) ascii⟩

namespace PairingToken

def generate (bytes : { bytes : Bytes // bytes.length = TOKEN_BYTES }) : PairingToken where
  text := encodeHex bytes
  length := by
    obtain ⟨bytes, length⟩ := bytes
    simp [encodeHex, length, TOKEN_LENGTH]
  digits := by
    intro c member
    obtain ⟨byte, -, member⟩ := List.mem_flatMap.mp member
    have found (n : Nat) : DIGITS.getD n '0' ∈ DIGITS := by
      rw [List.getD_eq_getElem?_getD]
      cases there : DIGITS[n]? with
      | none => decide
      | some d => exact List.mem_of_getElem? there
    simp only [List.mem_cons, List.not_mem_nil, or_false] at member
    rcases member with rfl | rfl <;> exact found _

/-- Where every byte is a digit, the bytes are the characters. -/
def parse (value : Text) : Except TokenError PairingToken :=
  if h : (trim value).length = TOKEN_LENGTH ∧ (trim value).all isAsciiHexdigit = true then
    .ok {
      text := toAsciiLowercase (trim value)
      length := by rw [toAsciiLowercase, List.length_map, h.1]
      digits := by
        intro c member
        obtain ⟨d, there, same⟩ := List.mem_map.mp member
        rw [← same]
        exact (toLower_digit d).mpr (List.all_eq_true.mp h.2 d there) }
  else .error .invalidToken

variable {token : PairingToken} {value presented : Text}

theorem parse_iff : parse value = .ok token ↔ token.text = toAsciiLowercase (trim value) := by
  unfold parse
  split
  · rw [Except.ok.injEq, PairingToken.ext_iff, eq_comm]
  · rename_i unlike
    refine ⟨nofun, fun same => absurd ⟨?_, List.all_eq_true.mpr fun c member => ?_⟩ unlike⟩
    · rw [← token.length, same, toAsciiLowercase, List.length_map]
    · exact (toLower_digit c).mp (token.digits _ (same ▸ List.mem_map_of_mem member))

/-- What is presented is accepted if it parses as the token. -/
theorem matches_iff_parses {J : Type} {channel : Channel J} (own : channel.token = token.text) :
    channel.tokenMatches presented = true ↔ parse presented = .ok token := by
  unfold Channel.tokenMatches
  rw [decide_eq_true_iff, own, parse_iff]
  refine ⟨fun same => ?_, congrArg toUtf8⟩
  have read := congrArg fromUtf8 same
  simpa [fromUtf8_toUtf8] using read

theorem parse_line (token : PairingToken) : parse (token.text ++ ['\n']) = .ok token := by
  have plain : DIGITS.all (fun c => isWhitespace c = false ∧ c.toLower = c) = true := by decide
  simp only [List.all_eq_true, decide_eq_true_iff] at plain
  have solid : Solid token.text := fun c member => (plain c (token.digits c member)).1
  have lower : token.text.map Char.toLower = token.text.map id :=
    List.map_congr_left fun c member => (plain c (token.digits c member)).2
  have start : trimStart (token.text ++ ['\n']) = token.text ++ ['\n'] := by
    cases same : token.text with
    | nil => cases same ▸ token.length
    | cons c rest => exact trimStart_cons (solid c (same ▸ List.mem_cons_self))
  rw [parse_iff, trim, start, trimEnd_blank (by decide), trimEnd_solid solid, toAsciiLowercase,
    lower, List.map_id]

end PairingToken

/-! ## The file -/

inductive TokenOp where
  | readToString
  | fill
  | createDirAll
  | openTruncated
  | write (bytes : Bytes)

abbrev TokenOp.Answer : TokenOp → Type
  | .readToString => Except IoErrorKind Text
  | .fill => Option { bytes : Bytes // bytes.length = TOKEN_BYTES }
  | _ => Except IoErrorKind Unit

abbrev TokenCall := Fallible TokenOp TokenOp.Answer TokenError

def TokenOp.perform (op : TokenOp) : TokenCall op.Answer := Fallible.perform op

open TokenOp (perform)

def orTokenFile {α : Type} : Except IoErrorKind α → TokenCall α
  | .ok value => pure value
  | .error kind => throw (.tokenFile kind)

def loadToken : TokenCall (Option PairingToken) := do
  match ← perform .readToString with
  | .ok contents => some <$> ExceptT.mk (pure (PairingToken.parse contents))
  | .error .notFound => pure none
  | .error kind => throw (.tokenFile kind)

def saveToken (token : PairingToken) : TokenCall Unit := do
  orTokenFile (← perform .createDirAll)
  orTokenFile (← perform .openTruncated)
  orTokenFile (← perform (.write (toUtf8 (token.text ++ ['\n']))))

def loadOrCreateToken : TokenCall PairingToken := do
  if let some token ← loadToken then return token
  match ← perform .fill with
  | none => throw .random
  | some bytes => do
      saveToken (.generate bytes)
      pure (.generate bytes)

/-- The file is only appended to once it was opened. -/
def tokenSpec (requires : TokenOp → Option Bytes → Prop) :
    Spec TokenOp TokenOp.Answer (Option Bytes) where
  requires := requires
  ensures
    | .readToString, file, answer, after => after = file ∧ match answer with
        | .ok contents => ∃ bytes, file = some bytes ∧ fromUtf8 bytes = some contents
        | .error kind => kind = .notFound → file = none
    | .openTruncated, file, answer, after =>
        after = some [] ∨ answer ≠ .ok () ∧ after = file
    | .write bytes, file, answer, after => ∃ written, written <+: bytes ∧
        after = file.map (· ++ written) ∧ (answer = .ok () → written = bytes)
    | .fill, file, _, after | .createDirAll, file, _, after => after = file

/-- The token that is read from the file. -/
def stored (file : Option Bytes) : Option PairingToken :=
  (file.bind fromUtf8).bind fun contents => (PairingToken.parse contents).toOption

/-- The file still has the token that it had. -/
def Keeps (file after : Option Bytes) : Prop :=
  ∀ token, stored file = some token → stored after = some token

variable {file : Option Bytes} {token : PairingToken} {tokens : List PairingToken}

theorem loadToken_reads :
    Fallible.Yields (tokenSpec fun _ t => Keeps file t) (Keeps file) loadToken
      (fun found t => t = file ∧ stored file = found) file := by
  have same : Keeps file file := fun _ there => there
  refine ⟨same, fun answer t read => ?_⟩
  obtain ⟨rfl, read⟩ := read
  cases answer with
  | error kind =>
    cases kind with
    | notFound => exact ⟨rfl, by rw [read rfl]; rfl⟩
    | _ => exact same
  | ok contents =>
    obtain ⟨bytes, rfl, decoded⟩ := read
    have found : stored (some bytes) = (PairingToken.parse contents).toOption := by
      simp [stored, decoded]
    change Fallible.Yields _ _ (some <$> ExceptT.mk (pure (PairingToken.parse contents))) _ _
    cases parsed : PairingToken.parse contents with
    | error error => exact same
    | ok token => exact ⟨rfl, by rw [found, parsed]; rfl⟩

theorem saveToken_stores (absent : stored file = none) :
    Fallible.Yields (tokenSpec fun _ t => Keeps file t) (Keeps file) (saveToken token)
      (fun _ t => stored t = some token) file := by
  have free (t : Option Bytes) : Keeps file t := by
    intro token there
    rw [absent] at there
    cases there
  have tried {result : Except IoErrorKind Unit} {P : Option Bytes → Prop}
      {t : Option Bytes} (h : result = .ok () → P t) :
      Fallible.Yields (tokenSpec fun _ t => Keeps file t) (Keeps file) (orTokenFile result)
        (fun _ => P) t := by
    cases result with
    | ok value => exact h rfl
    | error kind => exact free t
  unfold saveToken
  refine .bind (.perform (P := fun _ _ => True) (free _) fun _ _ _ => trivial) fun _ made _ =>
    .bind (tried (P := fun _ => True) fun _ => trivial) fun _ made _ => ?_
  refine .bind (.perform (P := fun answer t => answer = .ok () → t = some []) (free _)
    fun answer t opened done => ?_) fun _ t opened =>
    .bind (tried (P := (· = some [])) opened) fun _ t emptied => ?_
  · exact opened.resolve_right fun failed => failed.1 done
  · refine .bind (P := fun answer u => answer = .ok () → stored u = some token)
      (.perform (free _) fun answer u put done => ?_) fun _ u wrote => tried wrote
    obtain ⟨written, -, same, whole⟩ := put
    rw [same, emptied, whole done]
    simp [stored, fromUtf8_toUtf8, PairingToken.parse_line, Except.toOption]

theorem loadOrCreateToken_stores :
    Fallible.Yields (tokenSpec fun _ t => Keeps file t) (Keeps file) loadOrCreateToken
      (fun token t => stored t = some token ∧ Keeps file t) file := by
  have same : Keeps file file := fun _ there => there
  refine .bind loadToken_reads fun found t read => ?_
  obtain ⟨rfl, read⟩ := read
  cases found with
  | some token => exact ⟨read, same⟩
  | none =>
    refine .bind (.perform (P := fun _ u => u = t) same fun _ _ kept => kept) fun bytes u kept => ?_
    subst kept
    cases bytes with
    | none => exact same
    | some bytes =>
      refine .bind (saveToken_stores read) fun _ t put => ⟨put, fun token there => ?_⟩
      rw [read] at there
      cases there

/-- What a call returned, `none` where it failed or was cut off. -/
def returned : Program TokenOp TokenOp.Answer (Except TokenError PairingToken) → Option PairingToken
  | .done (.ok token) => some token
  | _ => none

/-- The tokens that calls made one after the other returned. -/
inductive Calls : List PairingToken → Option Bytes → Prop where
  | start (file : Option Bytes) : Calls [] file
  | call {tokens : List PairingToken} {file after : Option Bytes}
      {program : Program TokenOp TokenOp.Answer (Except TokenError PairingToken)}
      (calls : Calls tokens file)
      (ran : Program.Steps (tokenSpec fun _ _ => True) (loadOrCreateToken.run, file)
        (program, after)) : Calls ((returned program).toList ++ tokens) after

theorem stored_of_calls (calls : Calls tokens file) :
    ∀ token ∈ tokens, stored file = some token := by
  induction calls with
  | start file => simp
  | @call _ file after program calls ran ih =>
    have run := Program.steps_requires (fun _ t => Keeps file t) ran
    have kept : Keeps file after :=
      Program.invariant_of_wp (fun _ _ met => met) (fun result u ended => by
        cases result with
        | ok token => exact ended.2
        | error error => exact ended) run loadOrCreateToken_stores
    intro token member
    rcases List.mem_append.mp member with now | earlier
    · rw [Option.mem_toList] at now
      unfold returned at now
      split at now
      · cases now
        exact (Fallible.Yields.value loadOrCreateToken_stores run).1
      · cases now
    · exact kept token (ih token earlier)

/-- Every call that returns a token returns the same one, wherever calls were cut off, and
it accepts what parses as it and nothing else. -/
theorem paired_once (calls : Calls tokens file) (member : token ∈ tokens) :
    stored file = some token ∧ (∀ other ∈ tokens, other = token) ∧
    ∀ {J : Type} (channel : Channel J) (presented : Text), channel.token = token.text →
      (channel.tokenMatches presented = true ↔ PairingToken.parse presented = .ok token) := by
  have there := stored_of_calls calls token member
  refine ⟨there, fun other member => ?_, fun channel presented own =>
    PairingToken.matches_iff_parses own⟩
  rw [stored_of_calls calls other member] at there
  exact Option.some.inj there

theorem paired_once_example : ∃ token file, Calls [token] file ∧ stored file = some token := by
  let bytes : { bytes : Bytes // bytes.length = TOKEN_BYTES } := ⟨List.replicate 32 0xA5, rfl⟩
  let S := tokenSpec fun _ _ => True
  have calls := @Calls.call _ _ _ (.done (.ok (.generate bytes))) (.start none)
    (.head (.mk (show S.ensures .readToString none (.error .notFound) none from
        ⟨rfl, fun _ => rfl⟩)) <|
      .head (.mk (show S.ensures .fill none (some bytes) none from rfl)) <|
      .head (.mk (show S.ensures .createDirAll none (.ok ()) none from rfl)) <|
      .head (.mk (show S.ensures .openTruncated none (.ok ()) (some []) from .inl rfl)) <|
      .head (.mk (show S.ensures (.write _) (some []) (.ok ()) (some _) from
        ⟨_, List.prefix_rfl, rfl, fun _ => rfl⟩)) .refl)
  exact ⟨_, _, calls, (paired_once calls (List.mem_singleton_self _)).1⟩

end Gunda.Capture
