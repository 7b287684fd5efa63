/- GID: Craftec/Node/Identity
   generality: I
   digest: One identity over all starts of a node: the key file, the node.id file and the command line. -/

import Mathlib
import Craftec.Library.InodeFs
import Craftec.Library.Run
import Craftec.Node.Requests
import Craftec.Sql.Database
import Craftec.Sql.RpcWrite
import Craftec.Types.Digest

set_option autoImplicit false
set_option relaxedAutoImplicit false

namespace Craftec.Node.Identity

open Craftec.Library.InodeFs (overwrite overwrite_take)
open Craftec.Library.Run (Reach Reach.invariant exists_reach mem_set_cases reach_step)
open Craftec.Node.Requests (Inbound Outside handle)
open Craftec.Sql.Database (CraftDatabase Env Libsql)
open Craftec.Sql.RpcWrite (Verifier sqlBytes)
open Craftec.Types.Digest (Blake3 Bytes Bytes32 NodeId hexDecode_hexEncode hexDigit hexDigits hexEncode)

/-- The third-party `ed25519_dalek` package. A signing key is its 32 secret bytes. -/
structure Ed25519 where
  publicKey : Bytes32 → NodeId
  sign : Bytes32 → Bytes → Bytes
  verify : Verifier
  verify_sign : ∀ secret msg, verify msg (sign secret msg) (publicKey secret) = true

/-- UTF-8 decoding as `read_to_string` makes it, of which only ASCII text is asked. -/
structure Utf8 where
  decode : Bytes → Option (List Char)
  ascii : ∀ l : Bytes, (∀ b ∈ l, b < 128) → decode l = some (l.map fun b => Char.ofNat b.toNat)

structure Files where
  lock : Option Bytes
  key : Option Bytes
  id : Option Bytes
  deriving DecidableEq

inductive StartError where
  | io (message : String)
  | identityError (message : String)
  | panicked
  deriving DecidableEq

/-- Which call of `KeyStore::new` is under way: the first, or that for the scheduler, with the secrets
of the key store and of the endpoint. -/
inductive Use where
  | node
  | scheduler (own served : Bytes32)
  deriving DecidableEq

/-- Where a start of the node stands, named by the file operation it makes next. -/
inductive Stage where
  | lock
  | look (use : Use)
  | load (use : Use)
  | makeDir (use : Use)
  | openKey (use : Use) (secret : Bytes32)
  | writeKey (use : Use) (secret : Bytes32) (off : ℕ)
  | subsystems (own : Bytes32)
  | reread (own : Bytes32)
  | openId (own served : Bytes32)
  | writeId (own served : Bytes32) (off : ℕ)
  | ready (own served scheduled : Bytes32)
  | failed (e : StartError)
  | killed
  deriving DecidableEq

def Stage.isSettled : Stage → Bool
  | .ready _ _ _ | .failed _ | .killed => true
  | _ => false

def Stage.looks : Stage → Bool
  | .look _ => true
  | _ => false

/-- What a step does not decide itself: the operating system's error, the bytes of a fresh secret,
and how many bytes beyond the first a write moves. -/
structure Choice where
  fault : Option String
  secret : Bytes32
  more : ℕ

def notFound : String := "No such file or directory (os error 2)"

def lockText : Bytes := [108, 111, 99, 107, 101, 100]

/-- `to_string` of the identifier, as it is written to `node.id`. -/
def idText (id : NodeId) : Bytes := id.display.toList.map fun c => UInt8.ofNat c.toNat

/-- Where `KeyStore::new` goes on in the start. -/
def Use.next (secret : Bytes32) : Use → Stage
  | .node => .subsystems secret
  | .scheduler own served => .ready own served secret

/-- One turn of `write_all` at offset `off`. -/
def writeAt (old whole : Bytes) (off more : ℕ) : Bytes :=
  overwrite old off ((whole.drop off).take (more + 1))

/-- The `?` after an operation of the operating system. -/
def Choice.orFail (c : Choice) (f : Files) (next : Files × Stage) : Files × Stage :=
  match c.fault with
  | some e => (f, .failed (.io e))
  | none => next

variable (E : Ed25519)

def advance (f : Files) (c : Choice) : Stage → Option (Files × Stage)
  | .lock => some (c.orFail f ({ f with lock := some lockText }, .look .node))
  -- `exists` answers an error with `false`
  | .look use => some (f, if f.key.isSome ∧ c.fault = none then .load use else .makeDir use)
  | .load use =>
    some (c.orFail f (match f.key with
      | none => (f, .failed (.io notFound))
      | some bytes =>
        match Bytes32.ofSlice? bytes with
        | none => (f, .failed (.identityError
            s!"node.key must be 32 bytes, found {bytes.length} bytes"))
        | some secret => (f, use.next secret)))
  | .makeDir use => some (c.orFail f (f, .openKey use c.secret))
  | .openKey use secret => some (c.orFail f ({ f with key := some [] }, .writeKey use secret 0))
  | .writeKey use secret off =>
    if off < secret.bytes.length then
      some (c.orFail f ({ f with key := some (writeAt (f.key.getD []) secret.bytes off c.more) },
        .writeKey use secret (min (off + (c.more + 1)) secret.bytes.length)))
    else some (f, use.next secret)
  | .subsystems own => some (c.orFail f (f, .reread own))
  | .reread own =>
    some (c.orFail f (match f.key with
      | none => (f, .failed (.io notFound))
      | some bytes =>
        -- `copy_from_slice` panics on any other length
        match Bytes32.ofSlice? bytes with
        | none => (f, .failed .panicked)
        | some served => (f, .openId own served)))
  | .openId own served => some (c.orFail f ({ f with id := some [] }, .writeId own served 0))
  | .writeId own served off =>
    if off < (idText (E.publicKey served)).length then
      some (c.orFail f ({ f with
          id := some (writeAt (f.id.getD []) (idText (E.publicKey served)) off c.more) },
        .writeId own served (min (off + (c.more + 1)) (idText (E.publicKey served)).length)))
    else some (f, .look (.scheduler own served))
  | .ready _ _ _ | .failed _ | .killed => none

/-- The files, and every start there has been. -/
structure State where
  files : Files
  starts : List Stage

def State.new : State := ⟨⟨none, none, none⟩, []⟩

inductive Label where
  | start
  | advance (i : ℕ) (c : Choice)
  | kill (i : ℕ)

def step (s : State) : Label → Option State
  | .start => some { s with starts := s.starts ++ [.lock] }
  | .advance i c => (s.starts[i]?).bind fun t => (advance E s.files c t).map fun r =>
      ⟨r.1, s.starts.set i r.2⟩
  | .kill i => (s.starts[i]?).bind fun t =>
      if t.isSettled then none else some { s with starts := s.starts.set i .killed }

def State.Idle (s : State) : Prop := ∀ t ∈ s.starts, t.isSettled = true

instance (s : State) : Decidable s.Idle := inferInstanceAs (Decidable (∀ t ∈ s.starts, _))

/-- The node is not started while another start is under way, and the check whether `node.key` is
there meets no error. -/
def Orderly (s : State) : Label → Prop
  | .start => s.Idle
  | .advance i c => (s.starts[i]?).any Stage.looks = true → c.fault = none
  | .kill _ => True

instance (s : State) (l : Label) : Decidable (Orderly s l) := by
  cases l <;> unfold Orderly <;> infer_instance

section CommandLine

variable (U : Utf8)

inductive CliError where
  | failedToRead (file : String)
  | invalidHex
  | keyLength (length : ℕ)
  | idLength (length : ℕ)
  deriving DecidableEq

/-- The characters of the Unicode property `White_Space`. -/
def isWhiteSpace (c : Char) : Bool :=
  (9 ≤ c.toNat && c.toNat ≤ 13) || (0x2000 ≤ c.toNat && c.toNat ≤ 0x200a) ||
    c.toNat ∈ [0x20, 0x85, 0xa0, 0x1680, 0x2028, 0x2029, 0x202f, 0x205f, 0x3000]

def trim (text : List Char) : List Char :=
  ((text.dropWhile isWhiteSpace).reverse.dropWhile isWhiteSpace).reverse

def loadKeypair (f : Files) : Except CliError Bytes32 :=
  match f.key with
  | none => .error (.failedToRead "node.key")
  | some bytes =>
    match Bytes32.ofSlice? bytes with
    | none => .error (.keyLength bytes.length)
    | some secret => .ok secret

def readNodeId (f : Files) : Except CliError Bytes32 :=
  match f.id.bind U.decode with
  | none => .error (.failedToRead "node.id")
  | some text =>
    match hexDigits (trim text) with
    | none => .error .invalidHex
    | some bytes =>
      match Bytes32.ofSlice? bytes with
      | none => .error (.idLength bytes.length)
      | some id => .ok id

/-- The request that `craftec execute` sends. -/
def executeRequest (f : Files) (sql : String) : Except CliError Inbound :=
  (loadKeypair f).map fun secret =>
    .sqlExecute sql (E.publicKey secret) (E.sign secret (sqlBytes sql))

end CommandLine

def Stage.Fits (f : Files) : Stage → Prop
  | .makeDir .node | .openKey .node _ => f.key = none
  | .writeKey .node secret off => f.key = some (secret.bytes.take off) ∧ off ≤ secret.bytes.length
  | .subsystems own | .reread own => f.key = some own.bytes
  | .openId own served | .look (.scheduler own served) | .load (.scheduler own served) =>
    served = own ∧ f.key = some own.bytes
  | .writeId own served off =>
    served = own ∧ f.key = some own.bytes ∧
      f.id = some ((idText (E.publicKey own)).take off) ∧ off ≤ (idText (E.publicKey own)).length
  | .ready own served scheduled => served = own ∧ scheduled = own ∧ f.key = some own.bytes
  | .makeDir (.scheduler _ _) | .openKey (.scheduler _ _) _ | .writeKey (.scheduler _ _) _ _ => False
  | .lock | .look .node | .load .node | .failed _ | .killed => True

/-- The text of `node.id` is the identifier of the key, or a part of it. -/
def Files.Named (f : Files) : Prop :=
  ∀ text, f.id = some text → ∃ secret n, f.key = some secret.bytes ∧
    text = (idText (E.publicKey secret)).take n

section Moves

variable {E} {f f' : Files} {c : Choice} {t t' : Stage}

theorem ofSlice?_eq_some {bytes : Bytes} {secret : Bytes32}
    (read : Bytes32.ofSlice? bytes = some secret) : bytes = secret.bytes := by
  unfold Bytes32.ofSlice? at read
  split at read
  · cases read
    rfl
  · cases read

theorem ofSlice?_bytes (secret : Bytes32) : Bytes32.ofSlice? secret.bytes = some secret :=
  dif_pos secret.size

theorem writeAt_take (whole : Bytes) {off : ℕ} (more : ℕ) (within : off ≤ whole.length) :
    writeAt (whole.take off) whole off more = whole.take (min (off + (more + 1)) whole.length) := by
  unfold writeAt
  rw [overwrite_take whole (more + 1) within, List.length_take, List.length_drop]
  congr 1
  omega

/-- The steps of a start, with what each was decided by. -/
inductive Move (E : Ed25519) (f : Files) : Stage → Files → Stage → Prop
  | fail (t : Stage) (e : StartError) : Move E f t f (.failed e)
  | locked : Move E f .lock { f with lock := some lockText } (.look .node)
  | found (use : Use) (there : f.key.isSome = true) : Move E f (.look use) f (.load use)
  | missing (use : Use) (none_ : f.key = none) : Move E f (.look use) f (.makeDir use)
  | loaded (use : Use) (secret : Bytes32) (held : f.key = some secret.bytes) :
    Move E f (.load use) f (use.next secret)
  | madeDir (use : Use) (secret : Bytes32) : Move E f (.makeDir use) f (.openKey use secret)
  | openKey (use : Use) (secret : Bytes32) :
    Move E f (.openKey use secret) { f with key := some [] } (.writeKey use secret 0)
  | writeKey (use : Use) (secret : Bytes32) (off more : ℕ) (short : off < secret.bytes.length) :
    Move E f (.writeKey use secret off)
      { f with key := some (writeAt (f.key.getD []) secret.bytes off more) }
      (.writeKey use secret (min (off + (more + 1)) secret.bytes.length))
  | wroteKey (use : Use) (secret : Bytes32) (off : ℕ) (whole : secret.bytes.length ≤ off) :
    Move E f (.writeKey use secret off) f (use.next secret)
  | subsystems (own : Bytes32) : Move E f (.subsystems own) f (.reread own)
  | reread (own served : Bytes32) (held : f.key = some served.bytes) :
    Move E f (.reread own) f (.openId own served)
  | openId (own served : Bytes32) :
    Move E f (.openId own served) { f with id := some [] } (.writeId own served 0)
  | writeId (own served : Bytes32) (off more : ℕ) :
    Move E f (.writeId own served off)
      { f with id := some (writeAt (f.id.getD []) (idText (E.publicKey served)) off more) }
      (.writeId own served (min (off + (more + 1)) (idText (E.publicKey served)).length))
  | wroteId (own served : Bytes32) (off : ℕ) :
    Move E f (.writeId own served off) f (.look (.scheduler own served))

theorem Choice.orFail_move {next : Files × Stage} (taken : c.orFail f next = (f', t'))
    (otherwise : Move E f t next.1 next.2) : Move E f t f' t' := by
  unfold Choice.orFail at taken
  split at taken
  · cases taken
    exact .fail t _
  · rw [taken] at otherwise
    exact otherwise

theorem advance_move (seen : t.looks = true → c.fault = none)
    (taken : advance E f c t = some (f', t')) : Move E f t f' t' := by
  cases t with
  | ready | failed | killed => cases taken
  | lock => exact Choice.orFail_move (Option.some.inj taken) .locked
  | makeDir use => exact Choice.orFail_move (Option.some.inj taken) (.madeDir use c.secret)
  | openKey use secret => exact Choice.orFail_move (Option.some.inj taken) (.openKey use secret)
  | subsystems own => exact Choice.orFail_move (Option.some.inj taken) (.subsystems own)
  | openId own served => exact Choice.orFail_move (Option.some.inj taken) (.openId own served)
  | look use =>
    simp only [advance, seen rfl, and_true] at taken
    split at taken
    · rename_i there
      cases taken
      exact .found use there
    · rename_i none_
      cases taken
      exact .missing use (Option.not_isSome_iff_eq_none.mp none_)
  | load use =>
    refine Choice.orFail_move (Option.some.inj taken) ?_
    split
    · exact .fail _ _
    · rename_i bytes held
      split
      · exact .fail _ _
      · rename_i secret read
        exact .loaded use secret (held.trans (congrArg some (ofSlice?_eq_some read)))
  | reread own =>
    refine Choice.orFail_move (Option.some.inj taken) ?_
    split
    · exact .fail _ _
    · rename_i bytes held
      split
      · exact .fail _ _
      · rename_i served read
        exact .reread own served (held.trans (congrArg some (ofSlice?_eq_some read)))
  | writeKey use secret off =>
    simp only [advance] at taken
    split at taken
    · rename_i short
      exact Choice.orFail_move (Option.some.inj taken) (.writeKey use secret off c.more short)
    · rename_i whole
      cases taken
      exact .wroteKey use secret off (Nat.le_of_not_lt whole)
  | writeId own served off =>
    simp only [advance] at taken
    split at taken
    · exact Choice.orFail_move (Option.some.inj taken) (.writeId own served off c.more)
    · cases taken
      exact .wroteId own served off

theorem bytes32_ext {a b : Bytes32} (same : a.bytes = b.bytes) : a = b := by
  cases a
  cases b
  cases same
  rfl

theorem Use.fits_next {use : Use} {secret : Bytes32} (held : f.key = some secret.bytes)
    (before : ∀ own served, use = .scheduler own served → served = own ∧ f.key = some own.bytes) :
    (use.next secret).Fits E f := by
  cases use with
  | node => exact held
  | scheduler own served =>
    obtain ⟨same, key⟩ := before own served rfl
    exact ⟨same, bytes32_ext (Option.some.inj (held.symm.trans key)), key⟩

theorem Move.fits (move : Move E f t f' t') (fits : t.Fits E f) : t'.Fits E f' := by
  cases move with
  | fail | locked => trivial
  | found use there =>
    cases use with
    | node => trivial
    | scheduler own served => exact fits
  | missing use none_ =>
    cases use with
    | node => exact none_
    | scheduler own served =>
      rw [fits.2] at none_
      cases none_
  | loaded use secret held =>
    refine Use.fits_next held ?_
    rintro own served rfl
    exact fits
  | madeDir use secret =>
    cases use with
    | node => exact fits
    | scheduler => exact fits.elim
  | openKey use secret =>
    cases use with
    | node => exact ⟨rfl, Nat.zero_le _⟩
    | scheduler => exact fits.elim
  | writeKey use secret off more short =>
    cases use with
    | node =>
      refine ⟨?_, min_le_right _ _⟩
      change some (writeAt (f.key.getD []) secret.bytes off more) = _
      rw [fits.1, Option.getD_some, writeAt_take _ _ fits.2]
    | scheduler => exact fits.elim
  | wroteKey use secret off whole =>
    cases use with
    | node =>
      have key := fits.1
      rw [List.take_of_length_le whole] at key
      exact key
    | scheduler => exact fits.elim
  | subsystems own => exact fits
  | reread own served held => exact ⟨bytes32_ext (Option.some.inj (held.symm.trans fits)), fits⟩
  | openId own served => exact ⟨fits.1, fits.2, rfl, Nat.zero_le _⟩
  | writeId own served off more =>
    obtain ⟨same, key, text, within⟩ := fits
    subst same
    refine ⟨rfl, key, ?_, min_le_right _ _⟩
    change some (writeAt (f.id.getD []) (idText (E.publicKey served)) off more) = _
    rw [text, Option.getD_some, writeAt_take _ _ within]
  | wroteId own served off => exact ⟨fits.1, fits.2.1⟩

theorem Move.key (move : Move E f t f' t') (fits : t.Fits E f) {secret : Bytes32}
    (held : f.key = some secret.bytes) : f'.key = f.key := by
  cases move with
  | openKey use other =>
    cases use with
    | node =>
      rw [show f.key = none from fits] at held
      cases held
    | scheduler => exact fits.elim
  | writeKey use other off more short =>
    cases use with
    | node =>
      have lengths := congrArg List.length (Option.some.inj (fits.1.symm.trans held))
      rw [List.length_take, secret.size] at lengths
      rw [other.size] at short lengths
      omega
    | scheduler => exact fits.elim
  | _ => rfl

/-- Where a start gets to while `node.key` is there and no key. -/
def Stage.Barred : Stage → Prop
  | .lock | .look .node | .load .node | .failed _ | .killed => True
  | _ => False

theorem Move.barred (move : Move E f t f' t') (barred : t.Barred) {bytes : Bytes}
    (there : f.key = some bytes) (torn : bytes.length ≠ 32) : t'.Barred ∧ f'.key = some bytes := by
  cases move with
  | fail | locked => exact ⟨trivial, there⟩
  | found use =>
    cases use with
    | node => exact ⟨trivial, there⟩
    | scheduler => exact barred.elim
  | missing use none_ =>
    rw [there] at none_
    cases none_
  | loaded use secret held =>
    rw [there] at held
    exact absurd ((congrArg List.length (Option.some.inj held)).trans secret.size) torn
  | _ => exact barred.elim

theorem Move.named (move : Move E f t f' t') (fits : t.Fits E f) (named : f.Named E) : f'.Named E := by
  intro text written
  cases move with
  | openId own served =>
    cases written
    exact ⟨own, 0, fits.2, rfl⟩
  | writeId own served off more =>
    have whole := Move.fits (.writeId (E := E) (f := f) own served off more) fits
    cases written
    exact ⟨own, _, whole.2.1, Option.some.inj whole.2.2.1⟩
  | openKey use other =>
    obtain ⟨secret, n, held, _⟩ := named text written
    cases use with
    | node =>
      rw [show f.key = none from fits] at held
      cases held
    | scheduler => exact fits.elim
  | writeKey use other off more short =>
    obtain ⟨secret, n, held, same⟩ := named text written
    have kept := Move.key (.writeKey (E := E) (f := f) use other off more short) fits held
    exact ⟨secret, n, kept.trans held, same⟩
  | _ => exact named text written

end Moves

structure Sound (s : State) : Prop where
  fits : ∀ t ∈ s.starts, t.Fits E s.files
  named : s.files.Named E
  one : ∀ (i j : ℕ) (t u : Stage), s.starts[i]? = some t → s.starts[j]? = some u →
    t.isSettled = false → u.isSettled = false → i = j

section Runs

variable {E} {s s' : State}

theorem sound_new : Sound E .new := by
  refine ⟨?_, ?_, ?_⟩
  · intro t listed
    cases listed
  · intro text written
    cases written
  · intro i j t u there
    cases there

theorem Stage.Fits.of_settled {f f' : Files} {t : Stage} (fits : t.Fits E f)
    (settled : t.isSettled = true)
    (kept : ∀ secret : Bytes32, f.key = some secret.bytes → f'.key = f.key) : t.Fits E f' := by
  cases t with
  | ready own served scheduled => exact ⟨fits.1, fits.2.1, (kept own fits.2.2).trans fits.2.2⟩
  | failed | killed => trivial
  | _ => cases settled

theorem Sound.one_set (sound : Sound E s) {i : ℕ} {t t' : Stage} (there : s.starts[i]? = some t)
    (open_ : t.isSettled = false) {j k : ℕ} {u v : Stage} (atJ : (s.starts.set i t')[j]? = some u)
    (atK : (s.starts.set i t')[k]? = some v) (openU : u.isSettled = false)
    (openV : v.isSettled = false) : j = k := by
  have here {j : ℕ} {u : Stage} (at_ : (s.starts.set i t')[j]? = some u)
      (openU : u.isSettled = false) : j = i := by
    by_contra other
    rw [List.getElem?_set_ne (Ne.symm other)] at at_
    exact other (sound.one j i u t at_ there openU open_)
  rw [here atJ openU, here atK openV]

theorem sound_set {i : ℕ} {t t' : Stage} {f' : Files} (sound : Sound E s)
    (there : s.starts[i]? = some t) (open_ : t.isSettled = false) (fits : t'.Fits E f')
    (named : f'.Named E) (kept : ∀ secret : Bytes32, s.files.key = some secret.bytes →
      f'.key = s.files.key) : Sound E ⟨f', s.starts.set i t'⟩ := by
  refine ⟨?_, named, fun j k u v => sound.one_set there open_⟩
  intro u listed
  rcases mem_set_cases listed with rfl | ⟨j, other, place⟩
  · exact fits
  · refine (sound.fits u (List.mem_of_getElem? place)).of_settled ?_ kept
    by_contra moving
    exact other (sound.one i j t u there place open_ (Bool.eq_false_of_not_eq_true moving))

theorem unsettled_of_advance {f f' : Files} {c : Choice} {t t' : Stage}
    (taken : advance E f c t = some (f', t')) : t.isSettled = false := by
  cases t with
  | ready | failed | killed => cases taken
  | _ => rfl

theorem of_step_advance {i : ℕ} {c : Choice} (orderly : Orderly s (.advance i c))
    (taken : step E s (.advance i c) = some s') :
    ∃ t f' t', s.starts[i]? = some t ∧ t.isSettled = false ∧ Move E s.files t f' t' ∧
      s' = ⟨f', s.starts.set i t'⟩ := by
  obtain ⟨t, there, moved⟩ := Option.bind_eq_some_iff.mp taken
  obtain ⟨⟨f', t'⟩, advanced, same⟩ := Option.map_eq_some_iff.mp moved
  have seen (looks : t.looks = true) : c.fault = none := orderly (by rw [there]; exact looks)
  exact ⟨t, f', t', there, unsettled_of_advance advanced, advance_move seen advanced, same.symm⟩

theorem step_sound {l : Label} (sound : Sound E s) (orderly : Orderly s l)
    (taken : step E s l = some s') : Sound E s' := by
  cases l with
  | start =>
    cases taken
    have last {j : ℕ} {u : Stage} (at_ : (s.starts ++ [Stage.lock])[j]? = some u)
        (open_ : u.isSettled = false) : j = s.starts.length := by
      by_contra other
      by_cases less : j < s.starts.length
      · rw [List.getElem?_append_left less] at at_
        rw [orderly u (List.mem_of_getElem? at_)] at open_
        cases open_
      · have past : (s.starts ++ [Stage.lock]).length ≤ j := by
          rw [List.length_append, List.length_singleton]
          omega
        rw [List.getElem?_eq_none past] at at_
        cases at_
    refine ⟨?_, sound.named, ?_⟩
    · intro t listed
      rcases List.mem_append.mp listed with old | new
      · exact sound.fits t old
      · rw [List.mem_singleton.mp new]
        trivial
    · intro i j t u atI atJ openT openU
      rw [last atI openT, last atJ openU]
  | advance i c =>
    obtain ⟨t, f', t', there, open_, move, rfl⟩ := of_step_advance orderly taken
    have fits := sound.fits t (List.mem_of_getElem? there)
    exact sound_set sound there open_ (move.fits fits)
      (move.named fits sound.named) fun secret held => move.key fits held
  | kill i =>
    obtain ⟨t, there, moved⟩ := Option.bind_eq_some_iff.mp taken
    split at moved
    · cases moved
    · rename_i open_
      cases moved
      exact sound_set sound there (Bool.eq_false_of_not_eq_true open_) trivial sound.named
        fun _ _ => rfl

theorem reach_sound (reach : Reach (step E) Orderly s s') (sound : Sound E s) : Sound E s' :=
  reach.invariant sound fun _ _ _ before orderly taken => step_sound before orderly taken

theorem step_key {l : Label} (sound : Sound E s) (orderly : Orderly s l)
    (taken : step E s l = some s') {secret : Bytes32} (held : s.files.key = some secret.bytes) : s'.files.key = some secret.bytes := by
  cases l with
  | start =>
    cases taken
    exact held
  | advance i c =>
    obtain ⟨t, f', t', there, -, move, rfl⟩ := of_step_advance orderly taken
    exact (move.key (sound.fits t (List.mem_of_getElem? there)) held).trans held
  | kill i =>
    obtain ⟨t, there, moved⟩ := Option.bind_eq_some_iff.mp taken
    split at moved
    · cases moved
    · cases moved
      exact held

theorem reach_key (reach : Reach (step E) Orderly s s') (sound : Sound E s) {secret : Bytes32}
    (held : s.files.key = some secret.bytes) : s'.files.key = some secret.bytes := by
  have both : Sound E s' ∧ s'.files.key = some secret.bytes := by
    refine @Reach.invariant _ _ (step E) Orderly
      (fun u => Sound E u ∧ u.files.key = some secret.bytes) s s' reach ?_ ?_
    · exact ⟨sound, held⟩
    · intro u l v before orderly taken
      exact ⟨step_sound before.1 orderly taken, step_key before.1 orderly taken before.2⟩
  exact both.2

/-- While `node.key` is there and no key, no start gets past reading it. -/
def Stuck (bytes : Bytes) (s : State) : Prop :=
  s.files.key = some bytes ∧ ∀ t ∈ s.starts, t.Barred

theorem step_stuck {l : Label} {bytes : Bytes} (torn : bytes.length ≠ 32) (stuck : Stuck bytes s)
    (orderly : Orderly s l) (taken : step E s l = some s') : Stuck bytes s' := by
  cases l with
  | start =>
    cases taken
    refine ⟨stuck.1, fun t listed => ?_⟩
    rcases List.mem_append.mp listed with old | new
    · exact stuck.2 t old
    · rw [List.mem_singleton.mp new]
      trivial
  | advance i c =>
    obtain ⟨t, f', t', there, -, move, rfl⟩ := of_step_advance orderly taken
    obtain ⟨barred, kept⟩ := move.barred (stuck.2 t (List.mem_of_getElem? there)) stuck.1 torn
    refine ⟨kept, fun u listed => ?_⟩
    rcases mem_set_cases listed with rfl | ⟨j, _, place⟩
    · exact barred
    · exact stuck.2 u (List.mem_of_getElem? place)
  | kill i =>
    obtain ⟨t, there, moved⟩ := Option.bind_eq_some_iff.mp taken
    split at moved
    · cases moved
    · cases moved
      refine ⟨stuck.1, fun u listed => ?_⟩
      rcases mem_set_cases listed with rfl | ⟨j, _, place⟩
      · trivial
      · exact stuck.2 u (List.mem_of_getElem? place)

theorem Sound.stuck (sound : Sound E s) (idle : s.Idle) {bytes : Bytes}
    (there : s.files.key = some bytes) (torn : bytes.length ≠ 32) : Stuck bytes s := by
  refine ⟨there, fun t listed => ?_⟩
  have settled := idle t listed
  cases t with
  | failed | killed => trivial
  | ready own served scheduled =>
    have held := (sound.fits _ listed).2.2
    rw [there] at held
    exact absurd ((congrArg List.length (Option.some.inj held)).trans own.size) torn
  | _ => cases settled

end Runs

section Text

variable {E}

theorem length_of_hexDigits {l : List Char} {bytes : Bytes} (decoded : hexDigits l = some bytes) :
    l.length = 2 * bytes.length := by
  induction l using Craftec.Types.Digest.hexDigits.induct generalizing bytes with
  | case1 =>
    cases decoded
    rfl
  | case2 c => cases decoded
  | case3 high low rest ih =>
    simp only [hexDigits, Option.bind_eq_bind, Option.bind_eq_some_iff] at decoded
    obtain ⟨h, _, l, _, later, onward, same⟩ := decoded
    cases same
    rw [List.length_cons, List.length_cons, List.length_cons, ih onward]
    omega

theorem hexDigit_plain {c : Char} {l : Bytes} (digit : c ∈ (hexEncode l).toList) :
    UInt8.ofNat c.toNat < 128 ∧ Char.ofNat (UInt8.ofNat c.toNat).toNat = c ∧ isWhiteSpace c = false := by
  have table : ∀ n < 16, UInt8.ofNat (hexDigit n).toNat < 128 ∧
      Char.ofNat (UInt8.ofNat (hexDigit n).toNat).toNat = hexDigit n ∧
      isWhiteSpace (hexDigit n) = false := by decide
  rw [hexEncode, String.toList_ofList] at digit
  obtain ⟨b, _, isDigit⟩ := List.mem_flatMap.mp digit
  have below : b.toNat < 256 := b.toNat_lt
  rcases List.mem_pair.mp isDigit with high | low
  · rw [high]
    exact table _ (by omega)
  · rw [low]
    exact table _ (Nat.mod_lt _ (by decide))

theorem dropWhile_of_none {l : List Char} (none_ : ∀ c ∈ l, isWhiteSpace c = false) :
    l.dropWhile isWhiteSpace = l := by
  cases l with
  | nil => rfl
  | cons c rest => rw [List.dropWhile_cons, none_ c List.mem_cons_self, if_neg Bool.false_ne_true]

theorem trim_of_none {l : List Char} (none_ : ∀ c ∈ l, isWhiteSpace c = false) : trim l = l := by
  unfold trim
  rw [dropWhile_of_none none_, dropWhile_of_none, List.reverse_reverse]
  intro c listed
  exact none_ c (List.mem_reverse.mp listed)

theorem decode_idText (U : Utf8) (id : NodeId) (n : ℕ) :
    U.decode ((idText id).take n) = some (id.display.toList.take n) := by
  have plain (c : Char) (listed : c ∈ id.display.toList) := hexDigit_plain (l := id.asBytes) listed
  rw [U.ascii]
  · unfold idText
    rw [← List.map_take, List.map_map]
    congr 1
    conv_rhs => rw [← List.map_id (id.display.toList.take n)]
    refine List.map_congr_left fun c listed => ?_
    exact (plain c (List.mem_of_mem_take listed)).2.1
  · intro b listed
    obtain ⟨c, among, rfl⟩ := List.mem_map.mp (List.mem_of_mem_take listed)
    exact (plain c among).1

theorem readNodeId_idText (U : Utf8) {f : Files} {id : NodeId} (written : f.id = some (idText id)) :
    readNodeId U f = .ok id.key := by
  have decoded : U.decode (idText id) = some id.display.toList := by
    have whole := decode_idText U id (idText id).length
    have long : id.display.toList.length ≤ (idText id).length := (List.length_map _).ge
    rwa [List.take_length, List.take_of_length_le long] at whole
  have trimmed : trim id.display.toList = id.display.toList :=
    trim_of_none fun c listed => (hexDigit_plain (l := id.asBytes) listed).2.2
  have digits : hexDigits id.display.toList = some id.asBytes := hexDecode_hexEncode id.asBytes
  simp only [readNodeId, written, Option.bind_some, decoded, trimmed, digits, NodeId.asBytes,
    ofSlice?_bytes]

theorem readNodeId_named {U : Utf8} {f : Files} {own id : Bytes32} (named : f.Named E)
    (held : f.key = some own.bytes) (read : readNodeId U f = .ok id) :
    id = (E.publicKey own).key := by
  unfold readNodeId at read
  split at read
  · cases read
  · rename_i text found
    obtain ⟨stored, written, decoded⟩ := Option.bind_eq_some_iff.mp found
    obtain ⟨secret, n, held', rfl⟩ := named stored written
    obtain rfl : secret = own := bytes32_ext (Option.some.inj (held'.symm.trans held))
    rw [decode_idText] at decoded
    obtain rfl := Option.some.inj decoded
    have trimmed : trim ((E.publicKey secret).display.toList.take n) =
        (E.publicKey secret).display.toList.take n :=
      trim_of_none fun c listed =>
        (hexDigit_plain (l := (E.publicKey secret).asBytes) (List.mem_of_mem_take listed)).2.2
    rw [trimmed] at read
    split at read
    · cases read
    · rename_i bytes digits
      split at read
      · cases read
      · rename_i key sliced
        cases read
        have bytesOf := ofSlice?_eq_some sliced
        -- only the whole text has 64 digits
        have length := length_of_hexDigits digits
        rw [bytesOf, id.size] at length
        have whole : (E.publicKey secret).display.toList.length = 64 := by
          have decoded := hexDecode_hexEncode (E.publicKey secret).asBytes
          have := length_of_hexDigits decoded
          rw [NodeId.asBytes, (E.publicKey secret).key.size] at this
          exact this
        have all : (E.publicKey secret).display.toList.take n = (E.publicKey secret).display.toList := by
          apply List.take_of_length_le
          rw [List.length_take] at length
          omega
        rw [all] at digits
        have decoded := hexDecode_hexEncode (E.publicKey secret).asBytes
        have same : bytes = (E.publicKey secret).asBytes := Option.some.inj (digits.symm.trans decoded)
        exact bytes32_ext (bytesOf.symm.trans same)

end Text

theorem loadKeypair_held {f : Files} {own : Bytes32} (held : f.key = some own.bytes) :
    loadKeypair f = .ok own := by
  unfold loadKeypair
  simp only [held, ofSlice?_bytes]

theorem handle_signed {Db : Type} (B : Blake3) (L : Libsql Db) {X : Outside} (checks : X.verify = E.verify)
    (db : CraftDatabase Db) (env : Env) (own : Bytes32) (sql : String) :
    (handle B L X (E.publicKey own) db env
      (.sqlExecute sql (E.publicKey own) (E.sign own (sqlBytes sql)))).1 =
      (db.execute B L sql (E.publicKey own) env).1 := by
  have signed : X.verify (sqlBytes sql) (E.sign own (sqlBytes sql)) (E.publicKey own) = true := by
    rw [checks]
    exact E.verify_sign own (sqlBytes sql)
  simp only [handle, ne_eq, not_true_eq_false, if_false, signed, Bool.not_true, Bool.false_eq_true]
  split <;> rename_i result <;> rw [result]

/-- Why the check is asked to meet no error: whatever secret a node directory has, one start in which
it does meet one leaves any other secret there. -/
theorem key_lost_of_failed_check {s : State} (idle : s.Idle) (other : Bytes32) :
    ∃ t, Reach (step E) (fun s l => l = .start → s.Idle) s t ∧ t.files.key = some other.bytes := by
  let c : Choice := ⟨none, other, 31⟩
  let e : Choice := ⟨some "Permission denied (os error 13)", other, 31⟩
  let n := s.starts.length
  have here (t : Stage) : (s.starts ++ [t])[n]? = some t := List.getElem?_concat_length
  have next (t t' : Stage) : (s.starts ++ [t]).set n t' = s.starts ++ [t'] := by
    rw [List.set_append_right _ _ le_rfl, Nat.sub_self, List.set_cons_zero]
  have go (c : Choice) (f f' : Files) (t t' : Stage) (taken : advance E f c t = some (f', t')) :
      Reach (step E) (fun s l => l = .start → s.Idle) ⟨f, s.starts ++ [t]⟩ ⟨f', s.starts ++ [t']⟩ := by
    refine reach_step (a := .advance n c) (fun starts => by cases starts) ?_
    simp only [step, here, Option.bind_some, taken, Option.map_some, next]
  have whole : writeAt [] other.bytes 0 31 = other.bytes := by
    have all := writeAt_take other.bytes 31 (Nat.zero_le _)
    rw [List.take_zero, other.size] at all
    exact all.trans (List.take_of_length_le other.size.le)
  have begins : Reach (step E) (fun s l => l = .start → s.Idle) s ⟨s.files, s.starts ++ [.lock]⟩ :=
    reach_step (a := .start) (fun _ => idle) rfl
  let f : Files := { s.files with lock := some lockText }
  refine ⟨⟨{ f with key := some other.bytes }, s.starts ++ [.writeKey .node other 32]⟩, ?_, rfl⟩
  refine begins.trans ?_
  refine (go c _ f .lock (.look .node) rfl).trans ?_
  refine (go e _ f (.look .node) (.makeDir .node) (by simp [advance, e])).trans ?_
  refine (go c _ f (.makeDir .node) (.openKey .node other) rfl).trans ?_
  refine (go c _ { f with key := some [] } (.openKey .node other) (.writeKey .node other 0) rfl).trans ?_
  refine go c _ _ (.writeKey .node other 0) (.writeKey .node other 32) ?_
  simp [advance, other.size, Choice.orFail, c, whole]

def Ed25519.plain : Ed25519 where
  publicKey secret := ⟨secret⟩
  sign _ msg := msg
  verify msg signature _ := decide (signature = msg)
  verify_sign _ _ := decide_eq_true rfl

end Craftec.Node.Identity
