import Arma.Types

/-!
# The names of batch ledgers

Model of `ShardPartyChannelIDToChannelName` and `ChannelNameToShardPartyChannelID`
(`node/ledger/batch_encoding.go`): the name under which the batches of a primary are stored and delivered, and what is
read off it. The name is read by cutting it at the first "party" and the first "-" after that, while the channel id at
its end may hold both.

* Strings are texts, and `strings.Cut` and `strconv.ParseUint` go through their characters from the left. A number is
  given up at the first character that is not a digit or that makes it too large, whichever comes first.
* `ValidateChannelID` compares the length of the leftmost match of `[a-z][a-z0-9.-]*` with that of the text.
* How Go prints a text between quotes is a parameter; only an error shows it.

Results:
* `cut_append`, `parseUint16_repr`: what is cut and parsed off a text that was put together.
* `channelName_identifies`: the name gives back shard, party and channel, so that different triples have different
  names.
-/

namespace Arma

open List

/-- `strings.CutPrefix`. -/
def cutPrefix (pre s : List Char) : Option (List Char) := if pre.isPrefixOf s then some (s.drop pre.length) else none

/-- `strings.Cut`: what stands before and after the first `sep`. -/
def cut (sep : List Char) : List Char → Option (List Char × List Char)
  | [] => if sep.isEmpty then some ([], []) else none
  | c :: s =>
    if sep.isPrefixOf (c :: s) then some ([], (c :: s).drop sep.length)
    else (cut sep s).map fun r => (c :: r.1, r.2)

/-- The loop of `strconv.ParseUint` in base 10. -/
def parseDigits (maxVal : Nat) : List Char → Nat → Except String Nat
  | [], n => .ok n
  | c :: s, n =>
    if c.isDigit then
      if maxVal < 10 * n + (c.toNat - '0'.toNat) then .error "value out of range"
      else parseDigits maxVal s (10 * n + (c.toNat - '0'.toNat))
    else .error "invalid syntax"

/-- `strconv.ParseUint(s, 10, 16)`. -/
def parseUint16 (quote : String → String) (s : List Char) : Except String UInt16 :=
  match if s.isEmpty then .error "invalid syntax" else parseDigits 65535 s 0 with
  | .ok n => .ok (UInt16.ofNat n)
  | .error err => .error s!"strconv.ParseUint: parsing {quote (String.ofList s)}: {err}"

def maxLength : Nat := 249

def isLowerLetter (c : Char) : Bool := 'a' ≤ c ∧ c ≤ 'z'

/-- The leftmost match of `ChannelAllowedChars`. -/
def findString (s : List Char) : List Char :=
  match s.dropWhile (!isLowerLetter ·) with
  | [] => []
  | c :: s => c :: s.takeWhile fun c => isLowerLetter c || c.isDigit || c == '.' || c == '-'

def validateChannelID (channelID : String) : Except String Unit :=
  if channelID.utf8ByteSize ≤ 0 then .error "channel ID illegal, cannot be empty"
  else if channelID.utf8ByteSize > maxLength then .error s!"channel ID illegal, cannot be longer than {maxLength}"
  else if (String.ofList (findString channelID.toList)).utf8ByteSize ≠ channelID.utf8ByteSize then
    .error s!"'{channelID}' contains illegal characters"
  else .ok ()

def shardPartyChannelIDToChannelName (shardID : ShardID) (partyID : PartyID) (channelID : String) : String :=
  s!"shard{shardID}party{partyID}-{channelID}"

def channelNameToShardPartyChannelID (quote : String → String) (channelName : String) :
    Except String (ShardID × PartyID × String) := do
  let some s := cutPrefix "shard".toList channelName.toList
    | .error s!"channel name does not start with 'shard': {channelName}"
  let some (shard, rest) := cut "party".toList s
    | .error s!"channel name does not contain 'party': {channelName}"
  let shardID ← (parseUint16 quote shard).mapError fun err =>
    s!"cannot extract 'shardID' from channel name: {channelName}, err: {err}"
  let some (partyStr, channelID) := cut "-".toList rest
    | .error s!"channel name does not contain the '-<channelID>' suffix: {channelName}"
  let partyID ← (parseUint16 quote partyStr).mapError fun err =>
    s!"cannot extract 'partyID' from channel name: {channelName}, err: {err}"
  (validateChannelID (String.ofList channelID)).mapError fun err =>
    s!"cannot extract 'channelID' from channel name: {channelName}, err: {err}"
  return (shardID, partyID, String.ofList channelID)

/-- A separator whose first character does not occur before it is found where it was put. -/
theorem cut_append {p : Char} {s : List Char} (hs : p ∉ s) (sep rest : List Char) :
    cut (p :: sep) (s ++ p :: (sep ++ rest)) = some (s, rest) := by
  induction s with
  | nil => simp [cut]
  | cons c s ih =>
    obtain ⟨hc, hs⟩ := not_or.mp (mem_cons.not.mp hs)
    simp [cut, List.isPrefixOf, hc, ih hs]

/-- Digits that never exceed the bound are read as the number they print. -/
theorem parseDigits_eq {maxVal : Nat} {s : List Char} (hs : ∀ c ∈ s, c.isDigit) :
    ∀ n, Nat.ofDigitChars 10 s n ≤ maxVal → parseDigits maxVal s n = .ok (Nat.ofDigitChars 10 s n) := by
  induction s with
  | nil => exact fun n _ => rfl
  | cons c s ih =>
    intro n hle
    rw [Nat.ofDigitChars_cons] at hle ⊢
    -- reading more digits only makes the number larger
    have hmax : 10 * n + (c.toNat - '0'.toNat) ≤ maxVal := by
      rw [Nat.ofDigitChars_eq_ofDigitChars_zero] at hle
      exact (Nat.le_mul_of_pos_left _ (Nat.pow_pos (by decide))).trans (le_trans (Nat.le_add_right _ _) hle)
    rw [parseDigits, if_pos (hs c mem_cons_self), if_neg hmax.not_gt]
    exact ih (fun c hc => hs c (mem_cons_of_mem _ hc)) _ hle

theorem parseUint16_repr (quote) (n : UInt16) : parseUint16 quote (Nat.toDigits 10 n.toNat) = .ok n := by
  have hle : Nat.ofDigitChars 10 (Nat.toDigits 10 n.toNat) 0 ≤ 65535 := by
    rw [Nat.ofDigitChars_ten_toDigits]
    exact Nat.le_of_lt_succ n.toNat_lt
  have hdigits := parseDigits_eq (fun c => Nat.isDigit_of_mem_toDigits (by decide) (by decide)) 0 hle
  rw [Nat.ofDigitChars_ten_toDigits] at hdigits
  simp [parseUint16, Nat.toDigits_ne_nil, hdigits]

theorem not_mem_toDigits {c : Char} (n : Nat) (hc : c.isDigit = false) : c ∉ Nat.toDigits 10 n := by
  intro hmem
  rw [Nat.isDigit_of_mem_toDigits (by decide) (by decide) hmem] at hc
  cases hc

theorem toList_channelName (shardID : ShardID) (partyID : PartyID) (channelID : String) :
    (shardPartyChannelIDToChannelName shardID partyID channelID).toList =
      "shard".toList ++ (Nat.toDigits 10 shardID.toNat ++ 'p' :: ("arty".toList ++
        (Nat.toDigits 10 partyID.toNat ++ '-' :: ([] ++ channelID.toList)))) := by
  have hprint : ∀ n : UInt16, (toString n).toList = Nat.toDigits 10 n.toNat := fun n => by
    rw [show toString n = toString n.toNat from rfl, Nat.toString_eq_ofList_toDigits, String.toList_ofList]
  simp only [shardPartyChannelIDToChannelName, String.toList_append, hprint, append_assoc]
  rfl

/-- What `channelNameToShardPartyChannelID` reads off a name that was put together. -/
theorem channelNameToShardPartyChannelID_name (quote) (shardID : ShardID) (partyID : PartyID)
    {channelID : String} (hvalid : validateChannelID channelID = .ok ()) :
    channelNameToShardPartyChannelID quote (shardPartyChannelIDToChannelName shardID partyID channelID) =
      .ok (shardID, partyID, channelID) := by
  have hparty := cut_append (not_mem_toDigits (c := 'p') shardID.toNat (by decide)) "arty".toList
    (Nat.toDigits 10 partyID.toNat ++ '-' :: ([] ++ channelID.toList))
  have hdash := cut_append (not_mem_toDigits (c := '-') partyID.toNat (by decide)) [] channelID.toList
  have hprefix : cutPrefix "shard".toList (shardPartyChannelIDToChannelName shardID partyID channelID).toList =
      some (Nat.toDigits 10 shardID.toNat ++ 'p' :: ("arty".toList ++
        (Nat.toDigits 10 partyID.toNat ++ '-' :: ([] ++ channelID.toList)))) := by
    rw [toList_channelName]
    simp [cutPrefix, List.isPrefixOf]
  simp only [channelNameToShardPartyChannelID, hprefix]
  rw [show "party".toList = 'p' :: "arty".toList from rfl, show "-".toList = '-' :: [] from rfl]
  simp only [hparty, hdash, parseUint16_repr, String.ofList_toList, hvalid, Except.mapError]
  rfl

/-- **A channel name identifies its ledger.** The name of a valid channel gives back its shard, party and channel id,
and no other triple has the same name. -/
theorem channelName_identifies (quote : String → String) (shardID : ShardID) (partyID : PartyID) {channelID : String}
    (hvalid : validateChannelID channelID = .ok ()) :
    channelNameToShardPartyChannelID quote (shardPartyChannelIDToChannelName shardID partyID channelID) =
      .ok (shardID, partyID, channelID) ∧
    ∀ shardID' partyID' channelID', validateChannelID channelID' = .ok () →
      shardPartyChannelIDToChannelName shardID' partyID' channelID' =
        shardPartyChannelIDToChannelName shardID partyID channelID →
      (shardID', partyID', channelID') = (shardID, partyID, channelID) := by
  have hread := channelNameToShardPartyChannelID_name quote shardID partyID hvalid
  refine ⟨hread, fun shardID' partyID' channelID' hvalid' hname => ?_⟩
  have hread' := channelNameToShardPartyChannelID_name quote shardID' partyID' hvalid'
  rw [hname, hread] at hread'
  exact (Except.ok.inj hread').symm

/-- A channel id may hold what separates the parts of the name. -/
theorem channelName_party_in_channelID : channelNameToShardPartyChannelID id "shard2party1-a-party7-3" =
    .ok (2, 1, "a-party7-3") :=
  (channelName_identifies id 2 1 (show validateChannelID "a-party7-3" = .ok () by decide)).1

end Arma
