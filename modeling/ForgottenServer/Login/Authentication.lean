import ForgottenServer.Login.Token
import Mathlib.Data.Char
import Mathlib.Data.List.Lex

/-! # Authentication

What the two ports ask of the rows of the accounts and of the characters. A test whose
argument is empty is not made. -/
namespace ForgottenServer.Login
open ForgottenServer.Lib.Wire

abbrev Text := List Char

/-- A row of `accounts`. The password is a hash; a secret that is `NULL` is read as empty. -/
structure AccountRow where
  id : UInt32
  name : Text
  password : Text
  secret : Text := []
  type : ℤ := 1
  premiumEndsAt : ℤ := 0

/-- A row of `players`. -/
structure PlayerRow where
  name : Text
  accountId : UInt32
  deletion : UInt64 := 0

structure Database where
  accounts : List AccountRow
  players : List PlayerRow
  /-- The primary key of `accounts`. -/
  ids : (accounts.map AccountRow.id).Nodup

/-- What is not this program's: SHA-1, an HMAC, the collation of the names, and dates. -/
structure Services where
  transformToSHA1 : Text → Text
  hmac : Bytes → Bytes → Digest
  same : Text → Text → Bool
  formatDateShort : ℤ → String

/-- The loop of `decodeSecret`, with `left` bits that are not written yet. -/
def decodeLoop : UInt32 → UInt32 → Bytes → Text → Bytes
  | _, _, key, [] => key
  | buffer, left, key, ch :: secret =>
    let push (buffer : UInt32) : Bytes :=
      if 8 ≤ left + 5 then
        decodeLoop buffer (left - 3) (key ++ [(buffer >>> (left - 3)).toUInt8]) secret
      else decodeLoop buffer (left + 5) key secret
    if 'A' ≤ ch ∧ ch ≤ 'Z' then push (buffer <<< 5 ||| ((ch.val &&& 0x1F) - 1))
    else if '2' ≤ ch ∧ ch ≤ '7' then push (buffer <<< 5 ||| (ch.val - 24))
    -- a key that is broken
    else []

def decodeSecret (secret : Text) : Bytes := decodeLoop 0 0 [] secret

structure Account where
  id : UInt32
  name : Text
  key : Bytes
  accountType : ℤ
  premiumEndsAt : ℤ
  characters : List Text

section Rows
variable (v : Services) (db : Database)

/-- `IOLoginData::loginserverAuthentication`: the account, where it returns true. -/
def loginserverAuthentication (name password : Text) : Option Account :=
  match db.accounts.find? fun row => v.same row.name name with
  | none => none
  | some row =>
    if v.transformToSHA1 password ≠ row.password then none
    else some {
      id := row.id
      name := row.name
      key := decodeSecret row.secret
      accountType := row.type
      premiumEndsAt := row.premiumEndsAt
      characters := ((db.players.filter fun player => player.accountId = row.id ∧
        player.deletion = 0).map PlayerRow.name).mergeSort }

/-- The test of a token. There is no answer if `generateToken` throws. -/
def tokenValid (secret : Bytes) (token : Text) (tokenTime : UInt32) : Option Bool :=
  [tokenTime, tokenTime - 1, tokenTime + 1].anyM fun time => do
    return token == (← generateToken v.hmac secret time.toUInt64)

/-- What stands between an account and its characters. -/
def passes (row : AccountRow) (password token : Text) (tokenTime : UInt32) : Option Bool := do
  if !token.isEmpty && !(decodeSecret row.secret).isEmpty then
    if !(← tokenValid v (decodeSecret row.secret) token tokenTime) then return false
  return password.isEmpty || v.transformToSHA1 password = row.password

/-- `IOLoginData::gameworldAuthentication`: the id that is returned, and the name of the character
as it is left behind. -/
def gameworldAuthentication (accountName password characterName token : Text)
    (tokenTime : UInt32) : Option (UInt32 × Text) :=
  match db.accounts.find? fun row => v.same row.name accountName with
  | none => some (0, characterName)
  | some row => do
    if !(← passes v row password token tokenTime) then return (0, characterName)
    match db.players.find? fun player => v.same player.name characterName with
    | none => return (0, characterName)
    | some player =>
      if player.accountId ≠ row.id ∨ player.deletion ≠ 0 then return (0, characterName)
      else return (row.id, player.name)

end Rows

/-! ## What the rows must say -/

section Rows
variable {v : Services} {db : Database} {accountName characterName : Text}

/-- The rows that two names are looked up in: the character is the account's and not deleted. -/
structure Database.Names (db : Database) (v : Services) (accountName characterName : Text)
    (row : AccountRow) (player : PlayerRow) : Prop where
  account : db.accounts.find? (fun row => v.same row.name accountName) = some row
  character : db.players.find? (fun player => v.same player.name characterName) = some player
  owned : player.accountId = row.id
  kept : player.deletion = 0

theorem Database.row_eq_of_id {row other : AccountRow} (hrow : row ∈ db.accounts)
    (hother : other ∈ db.accounts) (h : row.id = other.id) : row = other :=
  List.inj_on_of_nodup_map db.ids hrow hother h

/-- An id that is not zero is returned for rows that belong together. -/
theorem gameworldAuthentication_names {password token : Text} {tokenTime id : UInt32} {name : Text}
    (h : gameworldAuthentication v db accountName password characterName token tokenTime = some (id, name))
    (hid : id ≠ 0) :
    ∃ row player, db.Names v accountName characterName row player ∧ row.id = id ∧ player.name = name := by
  unfold gameworldAuthentication at h
  split at h
  · cases h
    exact absurd rfl hid
  · rename_i row hrow
    obtain ⟨passed, -, h⟩ := Option.bind_eq_some_iff.mp h
    cases passed with
    | false =>
      cases h
      exact absurd rfl hid
    | true =>
      simp only [Bool.not_true, Bool.false_eq_true, if_false] at h
      split at h
      · cases h
        exact absurd rfl hid
      · rename_i player hplayer
        split at h
        · cases h
          exact absurd rfl hid
        · rename_i howned
          rw [not_or, not_not, not_not] at howned
          cases h
          exact ⟨row, player, ⟨hrow, hplayer, howned.1, howned.2⟩, rfl, rfl⟩

theorem gameworldAuthentication_empty_iff {tokenTime id : UInt32} {name : Text} (hid : id ≠ 0) :
    gameworldAuthentication v db accountName [] characterName [] tokenTime = some (id, name) ↔
      ∃ row player, db.Names v accountName characterName row player ∧ row.id = id ∧ player.name = name := by
  refine ⟨fun h => gameworldAuthentication_names h hid, ?_⟩
  rintro ⟨row, player, h, rfl, rfl⟩
  have hpasses : passes v row [] [] tokenTime = some true := rfl
  simp [gameworldAuthentication, h.account, h.character, h.owned, h.kept, hpasses]

end Rows

end ForgottenServer.Login
