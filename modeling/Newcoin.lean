import Newcoin.UniqueNodeList.ScoreRound
import Newcoin.UniqueNodeList.FetchSlots
import Newcoin.UniqueNodeList.ScoreTimer
import Newcoin.UniqueNodeList.ValidatorEntries
import Newcoin.UniqueNodeList.TrustedList
import Newcoin.UniqueNodeList.ReferralWalk
import Newcoin.UniqueNodeList.DomainReferrals
import Newcoin.UniqueNodeList.SeedRows
import Newcoin.UniqueNodeList.Checksums
import Newcoin.UniqueNodeList.SeedSources
import Newcoin.UniqueNodeList.Renumbering
import Newcoin.UniqueNodeList.ScanSchedule
import Newcoin.UniqueNodeList.SeedQueries
import Newcoin.UniqueNodeList.StoredDomains
import Newcoin.Serializer.Writers
import Newcoin.Serializer.Accepts
import Newcoin.Serializer.Bounds
import Newcoin.Rfc1751.Spellings
import Newcoin.HttpsClient.Delivery
import Newcoin.HttpsClient.Runs
import Newcoin.Peer.Send
import Newcoin.Peer.Hello
import Newcoin.Wallet
import Newcoin.ConnectionPool.Maps
import Newcoin.ConnectionPool.Lock
import Newcoin.ConnectionPool.Registration
import Newcoin.ConnectionPool.Outbound
import Newcoin.ConnectionPool.Scanning
import Newcoin.ConnectionPool.LowWater
import Newcoin.ConnectionPool.Refresh
import Newcoin.BaseUInt.Counting
import Newcoin.BaseUInt.SetHex
import Newcoin.SectionFile.RoundTrip
import Newcoin.SectionFile.Padding
import Newcoin.ConnectionPool.BackOff
import Newcoin.Peer.Cookie
import Newcoin.Peer.Channel
import Newcoin.ConnectionPool.Service
import Newcoin.UniqueNodeList.TrustChains
import Newcoin.UniqueNodeList.Bootstrap
import Newcoin.UniqueNodeList.Restarts
import Newcoin.Wallet.Identity
import Newcoin.Database.Cursor
import Newcoin.Json.RoundTrip
