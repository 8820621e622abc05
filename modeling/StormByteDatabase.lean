import StormByteDatabase.Database.AtomicScopes
import StormByteDatabase.Database.DriverCalls
import StormByteDatabase.Database.HandleLifetime
import StormByteDatabase.Database.IntegerResults
import StormByteDatabase.Database.Registry
import StormByteDatabase.Database.ResultShape
import StormByteDatabase.Database.StatementHandles
import StormByteDatabase.Database.TemporaryResults
import StormByteDatabase.Database.Terminators
import StormByteDatabase.Database.Tls
import StormByteDatabase.Equality
import StormByteDatabase.Mariadb.Isolation
import StormByteDatabase.Mariadb.Ready
import StormByteDatabase.NameIndex
import StormByteDatabase.Postgres.Echo
import StormByteDatabase.Postgres.PreparedNames
import StormByteDatabase.Sqlite.Refcount
import StormByteDatabase.Sqlite.Script
import StormByteDatabase.Sqlite.TransactionSlot
