import ForgottenServer.Lib.Table
import ForgottenServer.Lib.Trimming
import Mathlib.Data.Finset.Insert

/-! # House access lists

`AccessList::parseList` with the lookups of players, guilds and ranks it makes. A text is
a list of characters; `tolower` works on the letters of ASCII. -/
namespace ForgottenServer.Houses
open Lib Lib.Trimming

abbrev Text := List Char

def toLowerCase (s : Text) : Text := s.map Char.toLower

/-! ## Players and guilds -/

structure GuildRank where
  id : ℕ
  name : Text
  deriving DecidableEq

structure Guild where
  id : ℕ
  name : Text
  ranks : List GuildRank
  /-- one of its members is in the game -/
  loaded : Bool
  deriving DecidableEq

structure Membership where
  guild : Guild
  rank : GuildRank
  rank_mem : rank ∈ guild.ranks
  deriving DecidableEq

structure Player where
  guid : ℕ
  name : Text
  online : Bool
  membership : Option Membership
  deriving DecidableEq

/-- The tables `players`, `guilds` and `guild_ranks`, whose keys are counted from one on
and whose unique names are compared without regard to case. -/
structure World where
  players : List Player
  guilds : List Guild
  guids : (players.map Player.guid).Nodup
  playerNames : (players.map fun p => toLowerCase p.name).Nodup
  guildIds : (guilds.map Guild.id).Nodup
  guildNames : (guilds.map fun g => toLowerCase g.name).Nodup
  guid_ne_zero : ∀ p ∈ players, p.guid ≠ 0
  guildId_ne_zero : ∀ g ∈ guilds, g.id ≠ 0
  player_named : ∀ p ∈ players, p.name ≠ []
  rank_eq : ∀ g ∈ guilds, ∀ g' ∈ guilds, ∀ r ∈ g.ranks, ∀ r' ∈ g'.ranks, r.id = r'.id → g = g' ∧ r = r'
  member : ∀ p ∈ players, ∀ m ∈ p.membership, m.guild ∈ guilds

namespace World
variable (w : World)

/-- `Game::getPlayerByName`. -/
def getPlayerByName (s : Text) : Option Player :=
  if s = [] then none
  else Table.lookup (fun p => toLowerCase p.name) (toLowerCase s) (w.players.filter Player.online)

/-- `IOLoginData::getGuidByName`. -/
def getGuidByName (name : Text) : ℕ :=
  match Table.lookup (fun p => toLowerCase p.name) (toLowerCase name) w.players with
  | none => 0
  | some p => p.guid

/-- `IOGuild::getGuildIdByName`. -/
def getGuildIdByName (name : Text) : ℕ :=
  match Table.lookup (fun g => toLowerCase g.name) (toLowerCase name) w.guilds with
  | none => 0
  | some g => g.id

/-- `Game::getGuild`. -/
def getGuild (id : ℕ) : Option Guild := Table.lookup Guild.id id (w.guilds.filter Guild.loaded)

/-- `IOGuild::loadGuild`. -/
def loadGuild (id : ℕ) : Option Guild := Table.lookup Guild.id id w.guilds

def getGuildByName (name : Text) : Option Guild :=
  let guildId := w.getGuildIdByName name
  if guildId = 0 then none
  else match w.getGuild guildId with
    | some guild => some guild
    | none => w.loadGuild guildId

end World

/-- `Guild::getRankByName`, which compares the letters as they are. -/
def Guild.getRankByName (g : Guild) (name : Text) : Option GuildRank :=
  Table.lookup GuildRank.name name g.ranks

/-! ## The list -/

structure AccessList where
  list : Text := []
  playerList : Finset ℕ := ∅
  guildRankList : Finset ℕ := ∅
  allowEveryone : Bool := false

/-- The lines `getline` reads one after the other: nothing follows the last line break. -/
def getlines (text : Text) : List Text :=
  let parts := text.splitOn '\n'
  if parts.getLast? = some [] then parts.dropLast else parts

def isTab (c : Char) : Bool := c = '\t'
def isSpace (c : Char) : Bool := c = ' '

/-- `trimString`. -/
def trimString : Text → Text := trim isSpace

/-- The four trimming calls of `parseList`. -/
def trimLine (line : Text) : Text :=
  trimString (((trimString line).dropWhile isTab).rdropWhile isTab)

namespace AccessList
variable (w : World) (a : AccessList)

def addPlayer (name : Text) : AccessList :=
  match w.getPlayerByName name with
  | some player => { a with playerList := insert player.guid a.playerList }
  | none =>
    let guid := w.getGuidByName name
    if guid ≠ 0 then { a with playerList := insert guid a.playerList } else a

def addGuild (name : Text) : AccessList :=
  match w.getGuildByName name with
  | some guild => { a with guildRankList := (guild.ranks.map GuildRank.id).toFinset ∪ a.guildRankList }
  | none => a

def addGuildRank (name rankName : Text) : AccessList :=
  match w.getGuildByName name with
  | some guild =>
    match guild.getRankByName rankName with
    | some rank => { a with guildRankList := insert rank.id a.guildRankList }
    | none => a
  | none => a

/-- The body of the loop of `parseList`. -/
def parseLine (line : Text) : AccessList :=
  let line := trimLine line
  if line = [] ∨ line.head? = some '#' ∨ 100 < line.length then a
  else
    let line := toLowerCase line
    match line.idxOf? '@' with
    | some at_pos =>
      if at_pos = 0 then a.addGuild w (line.drop 1)
      else a.addGuildRank w (line.take (at_pos - 1)) (line.drop (at_pos + 1))
    | none =>
      if line = ['*'] then { a with allowEveryone := true }
      else if '!' ∈ line ∨ '*' ∈ line ∨ '?' ∈ line then a
      else a.addPlayer w line

/-- The loop of `parseList`, with the lines that are left to read. -/
def parseLines (lineNo : ℕ) : List Text → AccessList → AccessList
  | [], a => a
  | line :: rest, a => if 100 < lineNo + 1 then a else parseLines (lineNo + 1) rest (a.parseLine w line)

def parseList (list : Text) : AccessList :=
  if list = [] then { list := list } else parseLines w 1 (getlines list) { list := list }

def isInList (player : Player) : Bool :=
  if a.allowEveryone then true
  else if player.guid ∈ a.playerList then true
  else match player.membership with
    | some m => m.rank.id ∈ a.guildRankList
    | none => false

end AccessList
end ForgottenServer.Houses
