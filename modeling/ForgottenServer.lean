import ForgottenServer.Combat.Death
import ForgottenServer.Conditions.Defense
import ForgottenServer.Decay.Wheel
import ForgottenServer.Guild.Bank
import ForgottenServer.Maps.PathSearch
import ForgottenServer.Maps.Spectators
import ForgottenServer.Market.Conservation
import ForgottenServer.Npc.Banker
import ForgottenServer.Progress.Experience
import ForgottenServer.Pvp.Bounties
import ForgottenServer.Sql.Insert
import ForgottenServer.Things.Conservation
import ForgottenServer.Threads.Scheduler
import ForgottenServer.Threads.DatabaseTasks
import ForgottenServer.Creatures.Thinking
import ForgottenServer.Tiles.Flags
import ForgottenServer.Tiles.Stack
import ForgottenServer.Trade.Session
import ForgottenServer.Lib.Wire
import ForgottenServer.Save.Attributes
import ForgottenServer.Save.House
import ForgottenServer.Save.RoundTrip
import ForgottenServer.Save.HouseTrip
import ForgottenServer.Save.HouseTile
import ForgottenServer.Save.RemovedIds
import ForgottenServer.Save.PlayerItems
import ForgottenServer.Save.PlayerRows
import ForgottenServer.Save.PlayerTrip
import ForgottenServer.Things.WeightSoundness
import ForgottenServer.Things.Add
import ForgottenServer.Things.Lossless
import ForgottenServer.Things.Sizes
import ForgottenServer.Things.Capacity
import ForgottenServer.Things.Overfull
import ForgottenServer.Lib.Flags
import ForgottenServer.Conditions.Effect
import ForgottenServer.Guild.Alliances
import ForgottenServer.Pvp.Duels
import ForgottenServer.Tasks.Rewards
import ForgottenServer.Net.KnownCreatures
import ForgottenServer.Spawns.Refill
import ForgottenServer.Save.SavePlayer
import ForgottenServer.Parties.Life
import ForgottenServer.Net.Framing
import ForgottenServer.Net.XteaLoop
import ForgottenServer.Net.Received
import ForgottenServer.Speed.Composition
import ForgottenServer.Net.Viewport
import ForgottenServer.Maps.Links
import ForgottenServer.Maps.NodeGraph
import ForgottenServer.Maps.Query
import ForgottenServer.Inventory.Agreement
import ForgottenServer.Parties.Leaving
import ForgottenServer.Chat.Membership
import ForgottenServer.Login.Authentication
import ForgottenServer.Login.Ports
import ForgottenServer.Login.Token
import ForgottenServer.Login.Secret
import ForgottenServer.Progress.Advancement
import ForgottenServer.Progress.Loss
import ForgottenServer.Maps.WalkCacheMove
import ForgottenServer.Daily.Rewards
import ForgottenServer.Net.StackPosition
import ForgottenServer.Combat.Directions
import ForgottenServer.Npc.Withdrawal
import ForgottenServer.Crafting.Attempt
import ForgottenServer.Houses.Meaning
import ForgottenServer.Houses.Rent
import ForgottenServer.Combat.OneSquare
import ForgottenServer.Money.Exact
import ForgottenServer.Money.Sufficient
import ForgottenServer.Guild.Levels
import ForgottenServer.Crafting.Cooldown
import ForgottenServer.Names.WildcardTree
import ForgottenServer.Maps.SightLine
import ForgottenServer.Files.RoundTrip
import ForgottenServer.Items.Store
import ForgottenServer.Decay.OnTime
import ForgottenServer.Conditions.Rounds
import ForgottenServer.Conditions.Loading
import ForgottenServer.Combat.ManaShield
import ForgottenServer.Save.Outfits
import ForgottenServer.Things.Transformed
import ForgottenServer.Events.GlobalEvents
import ForgottenServer.Scripts.TimerEvents
import ForgottenServer.Parties.Dungeons
import ForgottenServer.Net.Outgoing
import ForgottenServer.Login.Handover
import ForgottenServer.Scripts.Environments
